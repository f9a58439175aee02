import Lumimux.Ipc.Stream
import Lumimux.Net.Frames

/-!
# The two carriers of the proxy (`libipc/proxy_msg.c`)

Over a stream a message travels behind a header with the window's number; over netchan the number is put in front of the
payload.
-/

namespace Lumimux.Net

open Lib Ipc List

def xsendStack : Nat := 4096 + 4

def proxyMsgXsend (n : Nct) (env : SendEnv) (memory : Bool) (windowId type : Nat) (payload : Bytes) :
    Nct × Bytes × Bool :=
  if payload.length > ipcMaxPayload then (n, [], false)
  else if payload.length + 4 > xsendStack ∧ memory = false then (n, [], false)
  else nctSend n env ⟨type, be32 windowId ++ payload⟩

def proxyMsgXdecode : Bytes → Option (Nat × Bytes)
  | w₀ :: w₁ :: w₂ :: w₃ :: rest => some (readBe32 w₀ w₁ w₂ w₃, rest)
  | _ => none

structure WindowMsg where
  windowId : Nat
  type : Nat
  payload : Bytes
  deriving DecidableEq, Repr

/-- A message whose words and length the headers can hold. -/
structure WindowMsg.Valid (m : WindowMsg) : Prop where
  windowId : m.windowId < 2 ^ 32
  type : m.type < 2 ^ 32
  payload : m.payload.length ≤ ipcMaxPayload

def WindowMsg.inner (m : WindowMsg) : Message := ⟨m.type, be32 m.windowId ++ m.payload⟩

/-- The message arrives over a stream. -/
def StreamDelivers (m : WindowMsg) : Prop :=
  Stream.InSync .proxy [⟨⟨[m.windowId, m.type], m.payload⟩, ipcMaxPayload⟩]

/-- The send finds memory, and the channel takes the whole frame. -/
structure Willing (n : Nct) (env : SendEnv) : Prop where
  memory : env.memory = true
  accepts : ipcHdrSize + ipcMaxPayload ≤ accepts n env.answers * nctChunk

/-- The message is sent over netchan, and the other end gets one message out of the bytes, which is this one. -/
def NetDelivers (n : Nct) (env : SendEnv) (m : WindowMsg) : Prop :=
  (proxyMsgXsend n env true m.windowId m.type m.payload).2.2 = true ∧
    ∃ inner, Reassembles (proxyMsgXsend n env true m.windowId m.type m.payload).2.1 [inner] ∧ inner.type = m.type ∧
      proxyMsgXdecode inner.payload = some (m.windowId, m.payload)

theorem length_inner (m : WindowMsg) : m.inner.payload.length = m.payload.length + 4 := by
  show (be32 m.windowId ++ m.payload).length = _
  rw [length_append, Nat.add_comm]
  rfl

theorem xdecode_inner {m : WindowMsg} (small : m.windowId < 2 ^ 32) :
    proxyMsgXdecode m.inner.payload = some (m.windowId, m.payload) := by
  show some (readBe32 _ _ _ _, m.payload) = _
  rw [readBe32_be32, Nat.mod_eq_of_lt small]

theorem stream_delivers {m} (valid : m.Valid) : StreamDelivers m := by
  refine Stream.inSync_of_measured (fun call member => ?_) fun call member => ?_
  · rw [mem_singleton.mp member]
    refine ⟨rfl, fun w word => ?_, valid.payload⟩
    rcases mem_pair.mp word with rfl | rfl
    · exact valid.windowId
    · exact valid.type
  · rw [mem_singleton.mp member]
    have small : ipcMaxPayload < 2 ^ 32 := by decide
    exact .inl small

section Netchan

variable {n : Nct} {env : SendEnv} {m : WindowMsg}

theorem xsend_eq (willing : Willing n env) (payload : m.payload.length ≤ ipcMaxPayload) :
    (proxyMsgXsend n env true m.windowId m.type m.payload).2 =
      if m.payload.length + 4 ≤ ipcMaxPayload then (m.inner.frame, true) else ([], false) := by
  have length := length_inner m
  have frame := length_frame m.inner
  have enough := willing.accepts
  unfold proxyMsgXsend
  rw [if_neg (Nat.not_lt.mpr payload), if_neg fun short => Bool.noConfusion short.2]
  have sent := nctSend_eq n env m.inner
  have same : nctSend n env ⟨m.type, be32 m.windowId ++ m.payload⟩ = nctSend n env m.inner := rfl
  rw [same, sent]
  by_cases fits : m.payload.length + 4 ≤ ipcMaxPayload
  · have all : m.inner.frame.length ≤ accepts n env.answers * nctChunk := by omega
    have offered : Offered env m.inner := ⟨by omega, fun _ => willing.memory⟩
    rw [if_pos offered, if_pos fits, take_of_length_le all, decide_eq_true all]
  · have refused : ¬Offered env m.inner := fun offered => fits (by
      have := offered.1
      omega)
    rw [if_neg refused, if_neg fits]

theorem inner_valid (valid : m.Valid) (fits : m.payload.length + 4 ≤ ipcMaxPayload) : m.inner.Valid where
  type := valid.type
  payload := by
    rw [length_inner]
    exact fits

end Netchan

/-- **The carriers agree** exactly when the payload leaves room for the window's number. -/
theorem carriers_agree_iff (n : Nct) (env : SendEnv) (willing : Willing n env) (m : WindowMsg) (valid : m.Valid) :
    (StreamDelivers m → NetDelivers n env m) ↔ m.payload.length + 4 ≤ ipcMaxPayload := by
  have sent := xsend_eq willing valid.payload
  constructor
  · intro agree
    obtain ⟨success, -⟩ := agree (stream_delivers valid)
    by_contra large
    rw [sent, if_neg large] at success
    cases success
  · intro fits _
    rw [if_pos fits] at sent
    refine ⟨by rw [sent], m.inner, ?_, rfl, xdecode_inner valid.windowId⟩
    rw [sent, reassembles_iff]
    have once := drain_sent fun m' member => (mem_singleton.mp member).symm ▸ inner_valid valid fits
    rw [flatMap_singleton] at once
    rw [once]

def Willing.env : SendEnv := ⟨true, replicate 33 ⟨[], true⟩⟩

theorem willing_env : Willing ⟨[], false⟩ Willing.env := ⟨rfl, by decide +kernel⟩

theorem shortMsg_agrees : NetDelivers ⟨[], false⟩ Willing.env ⟨7, 0x101, [1, 2, 3]⟩ :=
  (carriers_agree_iff ⟨[], false⟩ Willing.env willing_env ⟨7, 0x101, [1, 2, 3]⟩
    ⟨by decide, by decide, by decide⟩).mpr (by decide) (stream_delivers ⟨by decide, by decide, by decide⟩)

theorem longMsg_disagrees : StreamDelivers ⟨7, 0x101, replicate 65533 0⟩ ∧
      ¬NetDelivers ⟨[], false⟩ Willing.env ⟨7, 0x101, replicate 65533 0⟩ := by
  have length : (replicate 65533 (0 : UInt8)).length = 65533 := length_replicate
  have payload : (replicate 65533 (0 : UInt8)).length ≤ ipcMaxPayload := by
    rw [length]
    decide
  refine ⟨stream_delivers ⟨by decide, by decide, payload⟩, fun delivers => ?_⟩
  have sent := xsend_eq (m := ⟨7, 0x101, replicate 65533 0⟩) willing_env payload
  have success := delivers.1
  rw [sent, length, if_neg (by decide)] at success
  cases success

end Lumimux.Net
