import Lumimux.Ipc.Msg
import Lumimux.Lib.Reassembly
import Lumimux.Lib.Run

/-!
# Messages over netchan (`libnet/ipc_transport_netchan.c`)

A frame is cut into chunks, and the other end cuts frames off the front of what it reads.
-/

namespace Lumimux.Net

open Lib Ipc List

structure Message where
  type : Nat
  payload : Bytes
  deriving DecidableEq, Repr

def Message.frame (m : Message) : Bytes := be32 m.type ++ be32 m.payload.length ++ m.payload

/-- A message whose header the receiver accepts. -/
structure Message.Valid (m : Message) : Prop where
  type : m.type < 2 ^ 32
  payload : m.payload.length ≤ ipcMaxPayload

structure Nct where
  rxbuf : Bytes
  closed : Bool
  deriving DecidableEq, Repr

inductive Round
  | failed
  | fed (disconnected : Bool) (pieces : List Bytes)
  deriving DecidableEq, Repr

def Round.bytes : Round → Bytes
  | .failed => []
  | .fed _ pieces => pieces.flatten

def nctRxAppend (n : Nct) (data : Bytes) : Nct := { n with rxbuf := n.rxbuf ++ data }

def nctPumpEvents (n : Nct) (disconnected : Bool) (pieces : List Bytes) : Nct :=
  pieces.foldl nctRxAppend { n with closed := n.closed || disconnected }

def nctStep (n : Nct) : Round → Nct × Bool
  | .failed => (n, false)
  | .fed disconnected pieces => (nctPumpEvents n disconnected pieces, true)

inductive Taken
  | frame (m : Message)
  | notYet
  | error
  deriving DecidableEq, Repr

def nctTakeFrame (n : Nct) (bufsz : Nat) : Nct × Taken :=
  match n.rxbuf with
  | t₀ :: t₁ :: t₂ :: t₃ :: l₀ :: l₁ :: l₂ :: l₃ :: body =>
    let l := readBe32 l₀ l₁ l₂ l₃
    if l > ipcMaxPayload then (n, .error)
    else if body.length < l then (n, .notYet)
    else if l > bufsz then (n, .error)
    else ({ n with rxbuf := body.drop l }, .frame ⟨readBe32 t₀ t₁ t₂ t₃, body.take l⟩)
  | _ => (n, .notYet)

inductive RecvRc
  | message (m : Message)
  | eof
  | error
  | waiting
  deriving DecidableEq, Repr

def nctRecvNow (n : Nct) (bufsz : Nat) : Nct × RecvRc :=
  match nctTakeFrame n bufsz with
  | (n, .frame m) => (n, .message m)
  | (n, .error) => (n, .error)
  | (n, .notYet) => if n.closed ∧ n.rxbuf.length < ipcHdrSize then (n, .eof) else (n, .waiting)

def nctRecv (bufsz : Nat) : Nct → List Round → Nct × RecvRc × List Round
  | n, [] => ((nctRecvNow n bufsz).1, (nctRecvNow n bufsz).2, [])
  | n, round :: rounds =>
    match nctRecvNow n bufsz with
    | (n, .waiting) =>
      match nctStep n round with
      | (n, true) => nctRecv bufsz n rounds
      | (n, false) => (n, .error, rounds)
    | (n, rc) => (n, rc, round :: rounds)

def netchanTryRecv (n : Nct) (bufsz : Nat) : Nct × RecvRc :=
  match nctTakeFrame n bufsz with
  | (n, .frame m) => (n, .message m)
  | (n, .error) => (n, .error)
  | (n, .notYet) => if n.closed ∧ n.rxbuf.length < ipcHdrSize then (n, .error) else (n, .waiting)

def netchanPump (n : Nct) (round : Round) : Nct := (nctStep n round).1

def nctChunk : Nat := 2000

def nctSpins : Nat := 10000

structure ChunkAnswer where
  full : List Round
  accepted : Bool
  deriving DecidableEq, Repr

def writeChunk : Nat → Nct → List Round → Bool → Nct × Bool
  | 0, n, _, _ => (n, false)
  | _ + 1, n, [], accepted => (n, accepted)
  | spins + 1, n, round :: rounds, accepted =>
    let stepped := nctStep n round
    if stepped.2 = false ∨ stepped.1.closed then (stepped.1, false) else writeChunk spins stepped.1 rounds accepted

def sendChunks : Nat → Nct → List ChunkAnswer → Bytes → Nct × Bytes × Bool
  | 0, n, _, left => (n, [], left.isEmpty)
  | _ + 1, n, _, [] => (n, [], true)
  | _ + 1, n, [], _ :: _ => (n, [], false)
  | fuel + 1, n, answer :: answers, x :: left =>
    match writeChunk nctSpins n answer.full answer.accepted with
    | (n, false) => (n, [], false)
    | (n, true) =>
      let more := sendChunks fuel n answers ((x :: left).drop nctChunk)
      (more.1, (x :: left).take nctChunk ++ more.2.1, more.2.2)

/-- What a send meets: whether there is memory for a frame that is not small, and the answers of netchan. -/
structure SendEnv where
  memory : Bool
  answers : List ChunkAnswer
  deriving DecidableEq, Repr

def nctSend (n : Nct) (env : SendEnv) (m : Message) : Nct × Bytes × Bool :=
  if m.payload.length > ipcMaxPayload then (n, [], false)
  else if ipcHdrSize + m.payload.length > 2 * nctChunk ∧ env.memory = false then (n, [], false)
  else sendChunks (ipcHdrSize + m.payload.length) n env.answers m.frame

def judge (xs : Bytes) : Verdict UInt8 Message :=
  match nctTakeFrame ⟨xs, false⟩ ipcMaxPayload with
  | (n, .frame m) => .frame m n.rxbuf
  | (_, .notYet) => .more
  | (_, .error) => .bad

theorem length_frame (m : Message) : m.frame.length = ipcHdrSize + m.payload.length := by
  simp only [Message.frame, be32, length_append, length_cons, length_nil, ipcHdrSize]

theorem short_or_header (xs : Bytes) :
    xs.length < ipcHdrSize ∨ ∃ t₀ t₁ t₂ t₃ l₀ l₁ l₂ l₃ body, xs = t₀ :: t₁ :: t₂ :: t₃ :: l₀ :: l₁ :: l₂ :: l₃ :: body := by
  rcases xs with _ | ⟨t₀, _ | ⟨t₁, _ | ⟨t₂, _ | ⟨t₃, _ | ⟨l₀, _ | ⟨l₁, _ | ⟨l₂, _ | ⟨l₃, body⟩⟩⟩⟩⟩⟩⟩⟩
  on_goal 9 => exact .inr ⟨t₀, t₁, t₂, t₃, l₀, l₁, l₂, l₃, body, rfl⟩
  all_goals exact .inl (by simp [ipcHdrSize])

theorem judge_short {xs} (short : xs.length < ipcHdrSize) : judge xs = .more := by
  rcases xs with _ | ⟨t₀, _ | ⟨t₁, _ | ⟨t₂, _ | ⟨t₃, _ | ⟨l₀, _ | ⟨l₁, _ | ⟨l₂, _ | ⟨l₃, body⟩⟩⟩⟩⟩⟩⟩⟩
  on_goal 9 => exact absurd short (Nat.not_lt.mpr (Nat.le_add_left 8 body.length))
  all_goals rfl

section Header

variable (t₀ t₁ t₂ t₃ l₀ l₁ l₂ l₃ : UInt8) (body : Bytes)

theorem nctTakeFrame_header (closed : Bool) (bufsz : Nat) :
    nctTakeFrame ⟨t₀ :: t₁ :: t₂ :: t₃ :: l₀ :: l₁ :: l₂ :: l₃ :: body, closed⟩ bufsz =
      if readBe32 l₀ l₁ l₂ l₃ > ipcMaxPayload then
        (⟨t₀ :: t₁ :: t₂ :: t₃ :: l₀ :: l₁ :: l₂ :: l₃ :: body, closed⟩, .error)
      else if body.length < readBe32 l₀ l₁ l₂ l₃ then
        (⟨t₀ :: t₁ :: t₂ :: t₃ :: l₀ :: l₁ :: l₂ :: l₃ :: body, closed⟩, .notYet)
      else if readBe32 l₀ l₁ l₂ l₃ > bufsz then
        (⟨t₀ :: t₁ :: t₂ :: t₃ :: l₀ :: l₁ :: l₂ :: l₃ :: body, closed⟩, .error)
      else
        (⟨body.drop (readBe32 l₀ l₁ l₂ l₃), closed⟩,
          .frame ⟨readBe32 t₀ t₁ t₂ t₃, body.take (readBe32 l₀ l₁ l₂ l₃)⟩) := rfl

theorem judge_header : judge (t₀ :: t₁ :: t₂ :: t₃ :: l₀ :: l₁ :: l₂ :: l₃ :: body) =
      if readBe32 l₀ l₁ l₂ l₃ > ipcMaxPayload then .bad
      else if body.length < readBe32 l₀ l₁ l₂ l₃ then .more
      else .frame ⟨readBe32 t₀ t₁ t₂ t₃, body.take (readBe32 l₀ l₁ l₂ l₃)⟩ (body.drop (readBe32 l₀ l₁ l₂ l₃)) := by
  rw [judge, nctTakeFrame_header]
  generalize readBe32 l₀ l₁ l₂ l₃ = l
  generalize ipcMaxPayload = max
  by_cases large : l > max
  · rw [if_pos large, if_pos large]
  · rw [if_neg large, if_neg large, if_neg large]
    by_cases short : body.length < l
    · rw [if_pos short, if_pos short]
    · rw [if_neg short, if_neg short]

end Header

theorem judge_shape {xs rest m} (found : judge xs = .frame m rest) : xs = m.frame ++ rest ∧ m.Valid := by
  rcases short_or_header xs with short | ⟨t₀, t₁, t₂, t₃, l₀, l₁, l₂, l₃, body, rfl⟩
  · rw [judge_short short] at found
    cases found
  · rw [judge_header] at found
    have type := be32_readBe32 t₀ t₁ t₂ t₃
    have len := be32_readBe32 l₀ l₁ l₂ l₃
    have small := readBe32_lt t₀ t₁ t₂ t₃
    generalize readBe32 l₀ l₁ l₂ l₃ = l at found len
    generalize readBe32 t₀ t₁ t₂ t₃ = t at found type small
    split at found
    · cases found
    · rename_i allowed
      split at found
      · cases found
      · rename_i whole
        cases found
        have length : (body.take l).length = l := by
          rw [length_take]
          omega
        refine ⟨?_, small, by rw [length]; exact Nat.not_lt.mp allowed⟩
        rw [Message.frame, length, type, len, append_assoc, take_append_drop]
        rfl

theorem judge_frame {m} (valid : m.Valid) (rest : Bytes) : judge (m.frame ++ rest) = .frame m rest := by
  have type := Nat.mod_eq_of_lt valid.type
  have max : ipcMaxPayload = 65536 := rfl
  have payload := valid.payload
  have len : m.payload.length % 2 ^ 32 = m.payload.length := Nat.mod_eq_of_lt (by omega)
  have length : (m.payload ++ rest).length = m.payload.length + rest.length := length_append
  have bytes : m.frame ++ rest =
      UInt8.ofNat (m.type / 2 ^ 24) :: UInt8.ofNat (m.type / 2 ^ 16) :: UInt8.ofNat (m.type / 2 ^ 8) :: UInt8.ofNat m.type ::
        UInt8.ofNat (m.payload.length / 2 ^ 24) :: UInt8.ofNat (m.payload.length / 2 ^ 16) ::
        UInt8.ofNat (m.payload.length / 2 ^ 8) :: UInt8.ofNat m.payload.length :: (m.payload ++ rest) := by
    rw [Message.frame, append_assoc, append_assoc]
    rfl
  rw [bytes, judge_header, readBe32_be32, readBe32_be32, type, len, if_neg (by omega), if_neg (by omega),
    take_left, drop_left]

theorem judge_stable : Stable judge where
  shrinks {xs m rest} found := by
    obtain ⟨rfl, -⟩ := judge_shape found
    rw [length_append, length_frame, ipcHdrSize]
    omega
  frame {xs m rest} found ys := by
    obtain ⟨rfl, valid⟩ := judge_shape found
    rw [append_assoc]
    exact judge_frame valid _
  bad {xs} found ys := by
    rcases short_or_header xs with short | ⟨t₀, t₁, t₂, t₃, l₀, l₁, l₂, l₃, body, rfl⟩
    · rw [judge_short short] at found
      cases found
    · rw [judge_header] at found
      have shape : (t₀ :: t₁ :: t₂ :: t₃ :: l₀ :: l₁ :: l₂ :: l₃ :: body) ++ ys =
          t₀ :: t₁ :: t₂ :: t₃ :: l₀ :: l₁ :: l₂ :: l₃ :: (body ++ ys) := rfl
      rw [shape, judge_header]
      split at found
      · rename_i large
        rw [if_pos large]
      · split at found
        · cases found
        · cases found

theorem nctTakeFrame_cases (n : Nct) (bufsz : Nat) : (∃ m rest, judge n.rxbuf = .frame m rest ∧
      (m.payload.length ≤ bufsz ∧ nctTakeFrame n bufsz = ({ n with rxbuf := rest }, .frame m) ∨
        bufsz < m.payload.length ∧ nctTakeFrame n bufsz = (n, .error))) ∨
    judge n.rxbuf = .more ∧ nctTakeFrame n bufsz = (n, .notYet) ∨
    judge n.rxbuf = .bad ∧ nctTakeFrame n bufsz = (n, .error) := by
  obtain ⟨xs, closed⟩ := n
  dsimp only
  rcases short_or_header xs with short | ⟨t₀, t₁, t₂, t₃, l₀, l₁, l₂, l₃, body, rfl⟩
  · refine .inr (.inl ⟨judge_short short, ?_⟩)
    rcases xs with _ | ⟨t₀, _ | ⟨t₁, _ | ⟨t₂, _ | ⟨t₃, _ | ⟨l₀, _ | ⟨l₁, _ | ⟨l₂, _ | ⟨l₃, body⟩⟩⟩⟩⟩⟩⟩⟩
    on_goal 9 => exact absurd short (Nat.not_lt.mpr (Nat.le_add_left 8 body.length))
    all_goals rfl
  · rw [judge_header, nctTakeFrame_header]
    generalize readBe32 l₀ l₁ l₂ l₃ = l
    generalize ipcMaxPayload = max
    by_cases large : l > max
    · rw [if_pos large, if_pos large]
      exact .inr (.inr ⟨rfl, rfl⟩)
    · rw [if_neg large, if_neg large]
      by_cases short : body.length < l
      · rw [if_pos short, if_pos short]
        exact .inr (.inl ⟨rfl, rfl⟩)
      · rw [if_neg short, if_neg short]
        have length : (body.take l).length = l := by
          rw [length_take]
          omega
        refine .inl ⟨_, _, rfl, ?_⟩
        dsimp only
        rw [length]
        by_cases fits : l > bufsz
        · rw [if_pos fits]
          exact .inr ⟨fits, rfl⟩
        · rw [if_neg fits]
          exact .inl ⟨Nat.not_lt.mp fits, rfl⟩

/-- No frame is complete at the front. -/
def Incomplete (xs : Bytes) : Prop := ∀ m : Message, m.Valid → ¬m.frame <+: xs

def announced : Bytes → Nat
  | _ :: _ :: _ :: _ :: l₀ :: l₁ :: l₂ :: l₃ :: _ => readBe32 l₀ l₁ l₂ l₃
  | _ => 0

/-- Both receives report that the link is dead. -/
structure ReportsDead (n : Nct) (bufsz : Nat) : Prop where
  tryRecv : (netchanTryRecv n bufsz).2 = .error
  recv : ∀ rounds, (nctRecv bufsz n rounds).2 = (.error, rounds) ∨ (nctRecv bufsz n rounds).2 = (.eof, rounds)

theorem incomplete_of_judge {xs} (more : judge xs = .more) : Incomplete xs := by
  rintro m valid ⟨rest, rfl⟩
  rw [judge_frame valid] at more
  cases more

theorem nctRecv_returns {n bufsz rc} (now : nctRecvNow n bufsz = (n, rc)) (returns : rc ≠ .waiting) (rounds : List Round) :
    nctRecv bufsz n rounds = (n, rc, rounds) := by
  cases rounds with
  | nil => rw [nctRecv, now]
  | cons round rounds =>
    rw [nctRecv, now]
    cases rc with
    | message m => rfl
    | eof => rfl
    | error => rfl
    | waiting => exact absurd rfl returns

/-- **A dead link is reported** exactly when the bytes left are fewer than a header, or a header that announces more
than a message may have. -/
theorem dead_link_reported_iff (n : Nct) (bufsz : Nat) (closed : n.closed = true) (incomplete : Incomplete n.rxbuf) :
    ReportsDead n bufsz ↔ n.rxbuf.length < ipcHdrSize ∨ ipcMaxPayload < announced n.rxbuf := by
  rcases nctTakeFrame_cases n bufsz with ⟨m, rest, found, -⟩ | ⟨more, taken⟩ | ⟨bad, taken⟩
  · obtain ⟨whole, valid⟩ := judge_shape found
    exact absurd ⟨rest, whole.symm⟩ (incomplete m valid)
  · have now : nctRecvNow n bufsz = if n.closed ∧ n.rxbuf.length < ipcHdrSize then (n, .eof) else (n, .waiting) := by
      rw [nctRecvNow, taken]
    have try_ : netchanTryRecv n bufsz = if n.closed ∧ n.rxbuf.length < ipcHdrSize then (n, .error) else (n, .waiting) := by
      rw [netchanTryRecv, taken]
    rcases short_or_header n.rxbuf with short | ⟨t₀, t₁, t₂, t₃, l₀, l₁, l₂, l₃, body, bytes⟩
    · rw [if_pos ⟨closed, short⟩] at now try_
      refine ⟨fun _ => .inl short, fun _ => ⟨by rw [try_], fun rounds => .inr ?_⟩⟩
      rw [nctRecv_returns now RecvRc.noConfusion]
    · -- a header is there and its payload is not: both go on waiting
      have long : ¬n.rxbuf.length < ipcHdrSize := by
        rw [bytes]
        exact Nat.not_lt.mpr (Nat.le_add_left 8 body.length)
      rw [if_neg fun both => long both.2] at try_
      refine ⟨fun dead => ?_, ?_⟩
      · have := dead.tryRecv
        rw [try_] at this
        cases this
      · rintro (short | large)
        · exact absurd short long
        · rw [bytes, announced] at large
          rw [bytes, judge_header, if_pos large] at more
          cases more
  · have now : nctRecvNow n bufsz = (n, .error) := by
      rw [nctRecvNow, taken]
    refine ⟨fun _ => .inr ?_, fun _ => ⟨?_, fun rounds => .inl ?_⟩⟩
    · rcases short_or_header n.rxbuf with short | ⟨t₀, t₁, t₂, t₃, l₀, l₁, l₂, l₃, body, bytes⟩
      · rw [judge_short short] at bad
        cases bad
      · rw [bytes, announced]
        rw [bytes, judge_header] at bad
        split at bad
        · assumption
        · split at bad
          · cases bad
          · cases bad
    · rw [netchanTryRecv, taken]
    · rw [nctRecv_returns now RecvRc.noConfusion]

theorem sevenLeft_reported : ReportsDead ⟨[0, 0, 1, 1, 0, 0, 0], true⟩ 512 :=
  (dead_link_reported_iff ⟨[0, 0, 1, 1, 0, 0, 0], true⟩ 512 rfl (incomplete_of_judge rfl)).mpr (.inl (by decide))

theorem headerLeft_not_reported : Incomplete [0, 0, 1, 1, 0, 0, 0, 1] ∧ ¬ReportsDead ⟨[0, 0, 1, 1, 0, 0, 0, 1], true⟩ 512 := by
  refine ⟨incomplete_of_judge (by decide +kernel), fun dead => ?_⟩
  exact absurd dead.tryRecv (by decide +kernel)

end Lumimux.Net
