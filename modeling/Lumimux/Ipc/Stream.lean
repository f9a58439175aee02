import Lumimux.Ipc.Msg
import Lumimux.Lib.Transfer

/-!
# Messages over a byte stream (`libipc/ipc_msg.c`, `libipc/proxy_msg.c`)

Both pairs of send and receive use a header of 32-bit words that ends with the length; they differ in the words before
it.
-/

namespace Lumimux.Ipc.Stream

open Lib List

structure Msg where
  head : List Nat
  payload : Bytes
  deriving DecidableEq, Repr

def Msg.frame (m : Msg) : Bytes := m.head.flatMap be32 ++ be32 m.payload.length ++ m.payload

def msgSend (ios : List Io) (m : Msg) : Bytes × Option (List Io) :=
  let hdr := putAll ios (m.head.flatMap be32 ++ be32 m.payload.length)
  match hdr.2 with
  | none => hdr
  | some ios =>
    if 0 < m.payload.length then
      let body := putAll ios m.payload
      (hdr.1 ++ body.1, body.2)
    else (hdr.1, some ios)

def readWords : Bytes → List Nat
  | a :: b :: c :: d :: rest => readBe32 a b c d :: readWords rest
  | _ => []

inductive Recv
  | report (m : Msg) (rest : Bytes) (ios : List Io)
  | failed
  | ended
  | waiting

def fetched (got : Got UInt8) (next : Bytes → Bytes → List Io → Recv) : Recv :=
  match got with
  | .all taken rest ios => next taken rest ios
  | .ended => .ended
  | .waiting => .waiting

def discardSize : Nat := 256

def discardExcess : Nat → List Io → Nat → Bytes → Got UInt8
  | 0, ios, _, stream => .all [] stream ios
  | fuel + 1, ios, left, stream =>
    if left = 0 then .all [] stream ios
    else
      match getAll ios (min left discardSize) stream with
      | .all _ rest ios => discardExcess fuel ios (left - min left discardSize) rest
      | .ended => .ended
      | .waiting => .waiting

def msgRecv (words bufsz : Nat) (ios : List Io) (stream : Bytes) : Recv :=
  fetched (getAll ios (4 * (words + 1)) stream) fun hdr stream ios =>
    let fields := readWords hdr
    let head := fields.take words
    let len := fields.getD words 0
    let bufsz32 := bufsz % 2 ^ 32
    if len > ipcMaxPayload then .failed
    else if len = 0 then .report ⟨head, []⟩ stream ios
    else if len ≤ bufsz32 then fetched (getAll ios len stream) fun buf rest ios => .report ⟨head, buf⟩ rest ios
    else
      fetched (getAll ios bufsz stream) fun buf rest ios =>
        fetched (discardExcess (len - bufsz32) ios (len - bufsz32) rest) fun _ rest ios =>
          .report ⟨head, buf.take bufsz32⟩ rest ios

def ipcMsgSend (ios : List Io) (type : Nat) (payload : Bytes) : Bytes × Option (List Io) :=
  msgSend ios ⟨[type], payload⟩

def ipcMsgRecv (bufsz : Nat) : List Io → Bytes → Recv := msgRecv 1 bufsz

def proxyMsgSend (ios : List Io) (windowId type : Nat) (payload : Bytes) : Bytes × Option (List Io) :=
  msgSend ios ⟨[windowId, type], payload⟩

def proxyMsgRecv (bufsz : Nat) : List Io → Bytes → Recv := msgRecv 2 bufsz

inductive Carrier
  | ipc
  | proxy
  deriving DecidableEq, Repr

def Carrier.words : Carrier → Nat
  | .ipc => 1
  | .proxy => 2

def Carrier.send (c : Carrier) (ios : List Io) (m : Msg) : Bytes × Option (List Io) :=
  match c, m.head with
  | .ipc, [type] => ipcMsgSend ios type m.payload
  | .proxy, [windowId, type] => proxyMsgSend ios windowId type m.payload
  | _, _ => ([], some ios)

def Carrier.recv : Carrier → Nat → List Io → Bytes → Recv
  | .ipc => ipcMsgRecv
  | .proxy => proxyMsgRecv

/-- A message that the carrier's header can hold. -/
structure Msg.On (c : Carrier) (m : Msg) : Prop where
  words : m.head.length = c.words
  word : ∀ w ∈ m.head, w < 2 ^ 32
  fits : m.payload.length ≤ ipcMaxPayload

def sendAll (c : Carrier) : List Io → List Msg → Bytes × Option (List Io)
  | ios, [] => ([], some ios)
  | ios, m :: rest =>
    let sent := c.send ios m
    match sent.2 with
    | none => sent
    | some ios =>
      let more := sendAll c ios rest
      (sent.1 ++ more.1, more.2)

def recvAll (c : Carrier) : List Nat → List Io → Bytes → List (Option Msg)
  | [], _, _ => []
  | bufsz :: sizes, ios, stream =>
    match c.recv bufsz ios stream with
    | .report m rest ios => some m :: recvAll c sizes ios rest
    | .failed => [none]
    | .ended => [none]
    | .waiting => []

theorem msgSend_cases (ios : List Io) (m : Msg) :
    (∃ rest, msgSend ios m = (m.frame, some rest) ∧ Io.moving ios ≤ Io.moving rest + m.frame.length) ∨
    (msgSend ios m).2 = none ∧ Io.moving ios < m.frame.length := by
  have length : m.frame.length = (m.head.flatMap be32 ++ be32 m.payload.length).length + m.payload.length :=
    length_append
  unfold msgSend
  extract_lets hdr
  rcases putAll_cases ios (m.head.flatMap be32 ++ be32 m.payload.length) with ⟨rest, put, left⟩ | ⟨waits, few⟩
  · have first : hdr = (m.head.flatMap be32 ++ be32 m.payload.length, some rest) := put
    rw [first]
    dsimp only
    split
    · rcases putAll_cases rest m.payload with ⟨rest', put', left'⟩ | ⟨waits', few'⟩
      · rw [put']
        exact .inl ⟨rest', rfl, by omega⟩
      · exact .inr ⟨waits', by omega⟩
    · rename_i empty
      have none : m.payload = [] := eq_nil_of_length_eq_zero (by omega)
      refine .inl ⟨rest, ?_, by omega⟩
      rw [Msg.frame, none, append_nil]
  · have first : hdr.2 = none := waits
    rw [first]
    exact .inr ⟨first, by omega⟩

variable {m : Msg} {ios left : List Io} {stream rest : Bytes} {bufsz : Nat}

theorem Carrier.send_eq {c} (valid : m.On c) (ios : List Io) : c.send ios m = msgSend ios m := by
  obtain ⟨head, payload⟩ := m
  have length := valid.words
  cases c with
  | ipc =>
    obtain ⟨type, rfl⟩ := length_eq_one_iff.mp length
    rfl
  | proxy =>
    obtain ⟨windowId, type, rfl⟩ := length_eq_two.mp length
    rfl

theorem sendAll_cases {c msgs} (valid : ∀ m ∈ msgs, m.On c) (ios : List Io) :
    (∃ rest, sendAll c ios msgs = (msgs.flatMap Msg.frame, some rest)) ∨
    (sendAll c ios msgs).2 = none ∧ Io.moving ios < (msgs.flatMap Msg.frame).length := by
  induction msgs generalizing ios with
  | nil => exact .inl ⟨ios, rfl⟩
  | cons m msgs ih =>
    have length : ((m :: msgs).flatMap Msg.frame).length = m.frame.length + (msgs.flatMap Msg.frame).length := by
      rw [flatMap_cons, length_append]
    rw [sendAll, Carrier.send_eq (valid m mem_cons_self)]
    rcases msgSend_cases ios m with ⟨rest, sent, left⟩ | ⟨waits, few⟩
    · rw [sent]
      dsimp only
      rcases ih (fun m' member => valid m' (mem_cons_of_mem m member)) rest with ⟨rest', more⟩ | ⟨waits', few'⟩
      · rw [more]
        exact .inl ⟨rest', by rw [flatMap_cons]⟩
      · exact .inr ⟨waits', by omega⟩
    · rw [waits]
      exact .inr ⟨waits, by omega⟩

theorem readWords_frame {head} (word : ∀ w ∈ head, w < 2 ^ 32) (rest : Bytes) :
    readWords (head.flatMap be32 ++ rest) = head ++ readWords rest := by
  induction head with
  | nil => rfl
  | cons w head ih =>
    have small := word w mem_cons_self
    rw [flatMap_cons, append_assoc]
    show readWords (_ :: _ :: _ :: _ :: (head.flatMap be32 ++ rest)) = _
    rw [readWords, readBe32_be32, Nat.mod_eq_of_lt small, ih fun w' member => word w' (mem_cons_of_mem w member)]
    rfl

theorem length_flatMap_be32 (head : List Nat) : (head.flatMap be32).length = 4 * head.length := by
  induction head with
  | nil => rfl
  | cons w head ih =>
    rw [flatMap_cons, length_append, ih, length_cons]
    show 4 + _ = _
    omega

theorem discardExcess_cases (fuel : Nat) (ios : List Io) (left : Nat) (enough : left ≤ fuel) (stream : Bytes) :
    (∃ rest, discardExcess fuel ios left stream = .all [] (stream.drop left) rest ∧ left ≤ stream.length ∧
      Io.moving ios ≤ Io.moving rest + left) ∨ discardExcess fuel ios left stream = .ended ∧ stream.length < left ∨
    discardExcess fuel ios left stream = .waiting ∧ Io.moving ios < left := by
  induction fuel generalizing ios left stream with
  | zero =>
    have none : left = 0 := by omega
    subst none
    exact .inl ⟨ios, rfl, Nat.zero_le _, Nat.le_refl _⟩
  | succ fuel ih =>
    rw [discardExcess]
    split
    · rename_i none
      subst none
      exact .inl ⟨ios, rfl, Nat.zero_le _, Nat.le_refl _⟩
    · have positive : 0 < min left discardSize ∧ min left discardSize ≤ left := by
        have : 0 < discardSize := by decide
        omega
      generalize min left discardSize = chunk at positive
      rcases getAll_cases ios chunk stream with ⟨rest, got, inside, used⟩ | ⟨got, short⟩ | ⟨got, few⟩
      · rw [got]
        dsimp only
        have length : (stream.drop chunk).length = stream.length - chunk := length_drop
        rcases ih rest (left - chunk) (by omega) (stream.drop chunk) with
          ⟨rest', got', inside', used'⟩ | ⟨got', short'⟩ | ⟨got', few'⟩
        · refine .inl ⟨rest', ?_, by omega, by omega⟩
          rw [got', drop_drop, Nat.add_sub_cancel' positive.2]
        · exact .inr (.inl ⟨got', by omega⟩)
        · exact .inr (.inr ⟨got', by omega⟩)
      · rw [got]
        exact .inr (.inl ⟨rfl, by omega⟩)
      · rw [got]
        exact .inr (.inr ⟨rfl, by omega⟩)

/-- The condition on a buffer: as a 32-bit number its size is still one the payload fits into, or it is the size. -/
def Measured (bufsz : Nat) (m : Msg) : Prop := bufsz < 2 ^ 32 ∨ m.payload.length ≤ bufsz % 2 ^ 32
  deriving Decidable

section Receiving

variable {c : Carrier} {m : Msg} (valid : m.On c) (bufsz : Nat) (ios : List Io) (rest : Bytes)

theorem Carrier.recv_eq : c.recv bufsz ios rest = msgRecv c.words bufsz ios rest := by
  cases c <;> rfl

def recvBody (m : Msg) (bufsz : Nat) (ios : List Io) (stream : Bytes) : Recv :=
  if m.payload.length = 0 then .report m stream ios
  else if m.payload.length ≤ bufsz % 2 ^ 32 then
    fetched (getAll ios m.payload.length stream) fun buf rest ios => .report ⟨m.head, buf⟩ rest ios
  else
    fetched (getAll ios bufsz stream) fun buf rest ios =>
      fetched (discardExcess (m.payload.length - bufsz % 2 ^ 32) ios (m.payload.length - bufsz % 2 ^ 32) rest)
        fun _ rest ios => .report ⟨m.head, buf.take (bufsz % 2 ^ 32)⟩ rest ios

include valid

theorem msgRecv_header : (∃ left, msgRecv c.words bufsz ios (m.frame ++ rest) = recvBody m bufsz left (m.payload ++ rest) ∧
      Io.moving ios + m.payload.length ≤ Io.moving left + m.frame.length) ∨
    msgRecv c.words bufsz ios (m.frame ++ rest) = .waiting ∧ Io.moving ios < m.frame.length := by
  have max : ipcMaxPayload = 65536 := rfl
  have fits := valid.fits
  have header : (m.head.flatMap be32 ++ be32 m.payload.length).length = 4 * (c.words + 1) := by
    rw [length_append, length_flatMap_be32, valid.words]
    show _ + 4 = _
    omega
  have length : m.frame.length = 4 * (c.words + 1) + m.payload.length := by
    rw [Msg.frame, length_append, header]
  have stream : m.frame ++ rest = (m.head.flatMap be32 ++ be32 m.payload.length) ++ (m.payload ++ rest) := by
    rw [Msg.frame, append_assoc]
  have whole : (m.frame ++ rest).length = m.frame.length + rest.length := length_append
  unfold msgRecv
  rcases getAll_cases ios (4 * (c.words + 1)) (m.frame ++ rest) with ⟨left, got, inside, used⟩ | ⟨got, short⟩ | ⟨got, few⟩
  · rw [got, stream, ← header, take_left, drop_left]
    have fields : readWords (m.head.flatMap be32 ++ be32 m.payload.length) = m.head ++ [m.payload.length] := by
      rw [readWords_frame valid.word]
      show m.head ++ [readBe32 _ _ _ _] = _
      rw [readBe32_be32, Nat.mod_eq_of_lt (by omega)]
    have head : (m.head ++ [m.payload.length]).take c.words = m.head := by
      rw [← valid.words, take_left]
    have len : (m.head ++ [m.payload.length]).getD c.words 0 = m.payload.length := by
      rw [← valid.words]
      simp
    refine .inl ⟨left, ?_, by omega⟩
    rw [fetched]
    dsimp only
    rw [fields, head, len, if_neg (by omega), recvBody]
    split
    · rename_i none
      rw [← eq_nil_of_length_eq_zero none]
    · rfl
  · omega
  · rw [got]
    exact .inr ⟨rfl, by omega⟩

theorem recv_frame (measured : Measured bufsz m) :
    (∃ left, c.recv bufsz ios (m.frame ++ rest) = .report ⟨m.head, m.payload.take bufsz⟩ rest left ∧
      Io.moving ios ≤ Io.moving left + m.frame.length) ∨
    c.recv bufsz ios (m.frame ++ rest) = .waiting ∧ Io.moving ios < m.frame.length := by
  rw [Carrier.recv_eq]
  rcases msgRecv_header valid bufsz ios rest with ⟨ios', body, used⟩ | waits
  · rw [body, recvBody]
    have whole : (m.payload ++ rest).length = m.payload.length + rest.length := length_append
    split
    · rename_i empty
      have none := eq_nil_of_length_eq_zero empty
      refine .inl ⟨ios', ?_, by omega⟩
      obtain ⟨head, payload⟩ := m
      dsimp only at none
      rw [none, take_nil, nil_append]
    · split
      · rename_i short
        have roomy : m.payload.length ≤ bufsz := Nat.le_trans short (Nat.mod_le _ _)
        rcases getAll_cases ios' m.payload.length (m.payload ++ rest) with ⟨left, got, inside, used'⟩ | ⟨got, none⟩ | ⟨got, few⟩
        · rw [got, take_left, drop_left, take_of_length_le roomy]
          exact .inl ⟨left, rfl, by omega⟩
        · omega
        · rw [got]
          exact .inr ⟨rfl, by omega⟩
      · rename_i long
        -- a measured buffer that is too small has a 32-bit size
        have small : bufsz < 2 ^ 32 := measured.resolve_right long
        rw [Nat.mod_eq_of_lt small] at long ⊢
        rcases getAll_cases ios' bufsz (m.payload ++ rest) with ⟨left, got, inside, used'⟩ | ⟨got, none⟩ | ⟨got, few⟩
        · rw [got, fetched]
          have excess : ((m.payload ++ rest).drop bufsz).length = m.payload.length + rest.length - bufsz := by
            rw [length_drop, whole]
          rcases discardExcess_cases (m.payload.length - bufsz) left (m.payload.length - bufsz) (Nat.le_refl _)
            ((m.payload ++ rest).drop bufsz) with ⟨left', gone, -, used''⟩ | ⟨gone, none⟩ | ⟨gone, few⟩
          · rw [gone, drop_drop, Nat.add_sub_cancel' (by omega), drop_left,
              take_append_of_le_length (by omega), take_take, Nat.min_self]
            exact .inl ⟨left', rfl, by omega⟩
          · omega
          · rw [gone]
            exact .inr ⟨rfl, by omega⟩
        · omega
        · rw [got]
          exact .inr ⟨rfl, by omega⟩
  · exact .inr waits

theorem recv_unmeasured (unmeasured : ¬Measured bufsz m) {reported behind left}
    (returned : c.recv bufsz ios (m.frame ++ rest) = .report reported behind left) :
    reported.payload ≠ m.payload.take bufsz := by
  obtain ⟨large, long⟩ := not_or.mp unmeasured
  have max : ipcMaxPayload = 65536 := rfl
  have fits := valid.fits
  rw [Carrier.recv_eq] at returned
  rcases msgRecv_header valid bufsz ios rest with ⟨ios', body, -⟩ | ⟨waits, -⟩
  · rw [body, recvBody, if_neg (by omega), if_neg long] at returned
    unfold fetched at returned
    split at returned
    · dsimp only at returned
      split at returned
      · cases returned
        intro same
        have lengths := congrArg List.length same
        rw [take_of_length_le (show m.payload.length ≤ bufsz by omega), length_take] at lengths
        omega
      · cases returned
      · cases returned
    · cases returned
    · cases returned
  · rw [waits] at returned
    cases returned

end Receiving

structure Call where
  msg : Msg
  bufsz : Nat

def Call.report (call : Call) : Option Msg := some ⟨call.msg.head, call.msg.payload.take call.bufsz⟩

def received (c : Carrier) (calls : List Call) (wios rios : List Io) : List (Option Msg) :=
  recvAll c (calls.map Call.bufsz) rios (sendAll c wios (calls.map Call.msg)).1

/-- **The framed stream keeps its sync**: sends return when enough of their writes move bytes; once they did, the
receives that returned reported the messages in order, and all of them return when enough of their reads do. -/
structure InSync (c : Carrier) (calls : List Call) : Prop where
  sends : ∀ wios, ((calls.map Call.msg).flatMap Msg.frame).length ≤ Io.moving wios →
    (sendAll c wios (calls.map Call.msg)).2 ≠ none
  reports : ∀ wios rios, (sendAll c wios (calls.map Call.msg)).2 ≠ none →
    received c calls wios rios <+: calls.map Call.report
  all : ∀ wios rios, (sendAll c wios (calls.map Call.msg)).2 ≠ none →
    ((calls.map Call.msg).flatMap Msg.frame).length ≤ Io.moving rios →
    received c calls wios rios = calls.map Call.report

section Sequence

variable {c : Carrier} {calls : List Call} (valid : ∀ call ∈ calls, call.msg.On c)
include valid

theorem frames_sent {wios} (returned : (sendAll c wios (calls.map Call.msg)).2 ≠ none) :
    (sendAll c wios (calls.map Call.msg)).1 = (calls.map Call.msg).flatMap Msg.frame := by
  have each : ∀ m ∈ calls.map Call.msg, m.On c := by
    intro m member
    obtain ⟨call, member', rfl⟩ := mem_map.mp member
    exact valid call member'
  rcases sendAll_cases each wios with ⟨rest, sent⟩ | ⟨waits, -⟩
  · rw [sent]
  · exact absurd waits returned

theorem recvAll_measured (measured : ∀ call ∈ calls, Measured call.bufsz call.msg) (ios : List Io) :
    let got := recvAll c (calls.map Call.bufsz) ios ((calls.map Call.msg).flatMap Msg.frame)
    got <+: calls.map Call.report ∧
      (((calls.map Call.msg).flatMap Msg.frame).length ≤ Io.moving ios → got = calls.map Call.report) := by
  induction calls generalizing ios with
  | nil => exact ⟨prefix_refl _, fun _ => rfl⟩
  | cons call calls ih =>
    rw [map_cons, map_cons, map_cons, flatMap_cons, length_append, recvAll]
    rcases recv_frame (valid call mem_cons_self) call.bufsz ios ((calls.map Call.msg).flatMap Msg.frame)
      (measured call mem_cons_self) with ⟨left, got, used⟩ | ⟨got, few⟩
    · obtain ⟨some, enough⟩ := ih (fun call' member => valid call' (mem_cons_of_mem call member))
        (fun call' member => measured call' (mem_cons_of_mem call member)) left
      rw [got]
      refine ⟨(prefix_cons_inj _).mpr some, fun long => ?_⟩
      exact congrArg (call.report :: ·) (enough (by omega))
    · rw [got]
      exact ⟨ nil_prefix, fun long => absurd long (by omega)⟩

theorem measured_of_recvAll {ios}
    (same : recvAll c (calls.map Call.bufsz) ios ((calls.map Call.msg).flatMap Msg.frame) = calls.map Call.report) :
    ∀ call ∈ calls, Measured call.bufsz call.msg := by
  induction calls generalizing ios with
  | nil =>
    intro call member
    cases member
  | cons call calls ih =>
    have first := valid call mem_cons_self
    rw [map_cons, map_cons, map_cons, flatMap_cons, recvAll] at same
    have here : Measured call.bufsz call.msg := by
      by_contra unmeasured
      split at same
      · rename_i reported behind left returned
        have payload := recv_unmeasured first _ _ _ unmeasured returned
        have head := Option.some.inj (cons_eq_cons.mp same).1
        rw [head] at payload
        exact payload rfl
      · cases same
      · cases same
      · cases same
    rcases recv_frame first call.bufsz ios ((calls.map Call.msg).flatMap Msg.frame) here with ⟨left, got, -⟩ | ⟨got, -⟩
    · rw [got] at same
      have rest := ih (fun call' member => valid call' (mem_cons_of_mem call member)) (cons_eq_cons.mp same).2
      intro call' member
      rcases mem_cons.mp member with rfl | later
      · exact here
      · exact rest call' later
    · rw [got] at same
      cases same

theorem inSync_of_measured (measured : ∀ call ∈ calls, Measured call.bufsz call.msg) : InSync c calls where
  sends wios enough := by
    have each : ∀ m ∈ calls.map Call.msg, m.On c := by
      intro m member
      obtain ⟨call, member', rfl⟩ := mem_map.mp member
      exact valid call member'
    rcases sendAll_cases each wios with ⟨rest, sent⟩ | ⟨waits, few⟩
    · rw [sent]
      exact Option.some_ne_none rest
    · omega
  reports wios rios returned := by
    rw [received, frames_sent valid returned]
    exact (recvAll_measured valid measured rios).1
  all wios rios returned enough := by
    rw [received, frames_sent valid returned]
    exact (recvAll_measured valid measured rios).2 enough

/-- Every sequence of messages stays in sync exactly when its buffers are measured. -/
theorem inSync_iff : InSync c calls ↔ ∀ call ∈ calls, Measured call.bufsz call.msg := by
  constructor
  · intro sync
    -- answers that move one byte at a time are enough on both sides
    generalize plenty : replicate ((calls.map Call.msg).flatMap Msg.frame).length (Io.moves 0) = ios
    have moving : Io.moving ios = ((calls.map Call.msg).flatMap Msg.frame).length := by
      rw [← plenty, moving_replicate]
    have returned := sync.sends ios (by omega)
    have all := sync.all ios ios returned (by omega)
    rw [received, frames_sent valid returned] at all
    exact measured_of_recvAll valid all
  · exact inSync_of_measured valid

end Sequence

def truncated : List Call := [⟨⟨[7, 0x101], [1, 2, 3, 4, 5]⟩, 3⟩, ⟨⟨[0, 0x403], []⟩, 0⟩]

theorem truncated_inSync : InSync .proxy truncated := by
  refine (inSync_iff fun call member => ?_).mpr (by decide)
  fin_cases member
  · exact ⟨rfl, by decide, by decide⟩
  · exact ⟨rfl, by decide, by decide⟩

theorem hugeBuffer_not_inSync : ¬InSync .ipc [⟨⟨[0x101], [1]⟩, 2 ^ 32⟩] := by
  intro sync
  have all := sync.all (replicate 9 (.moves 0)) (replicate 20 (.moves 0)) (by decide) (by decide)
  exact absurd all (by decide +kernel)

end Lumimux.Ipc.Stream
