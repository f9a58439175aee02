import Lumimux.Lib.Decimal

/-!
# Message framing (`libipc/ipc_msg.c`)

A frame is an 8-byte big-endian header (type, length) and the payload.
-/

namespace Lumimux.Ipc
open List Option

def ipcMaxPayload : Nat := 64 * 1024

def ipcHdrSize : Nat := 8

inductive MsgType
  | attach
  | detach
  | kill
  | ok
  | error
  | attachReply
  | roleChange
  | clientEvent
  | roleRequest
  | input
  | output
  | flowCtrl
  | refresh
  | inputBegin
  | inputEnd
  | ptyFlags
  | winResize
  | termColors
  | attrTxnBegin
  | attrTxnCommit
  | attrTxnRollback
  | attrTxnOk
  | attrSet
  | attrDelete
  | attrGet
  | attrValue
  | attrList
  | attrEntries
  | attrOk
  | proxyReady
  | proxyWinAdded
  | proxyWinRemoved
  | nop
  | other (code : Nat)
  deriving DecidableEq, Repr

def MsgType.code : MsgType → Nat
  | attach => 0x0001
  | detach => 0x0002
  | kill => 0x0003
  | ok => 0x0004
  | error => 0x0005
  | attachReply => 0x0006
  | roleChange => 0x0007
  | clientEvent => 0x0008
  | roleRequest => 0x0009
  | input => 0x0100
  | output => 0x0101
  | flowCtrl => 0x0102
  | refresh => 0x0103
  | inputBegin => 0x0104
  | inputEnd => 0x0105
  | ptyFlags => 0x0201
  | winResize => 0x0207
  | termColors => 0x0208
  | attrTxnBegin => 0x0300
  | attrTxnCommit => 0x0301
  | attrTxnRollback => 0x0302
  | attrTxnOk => 0x0303
  | attrSet => 0x0310
  | attrDelete => 0x0311
  | attrGet => 0x0320
  | attrValue => 0x0321
  | attrList => 0x0322
  | attrEntries => 0x0323
  | attrOk => 0x0324
  | proxyReady => 0x0400
  | proxyWinAdded => 0x0401
  | proxyWinRemoved => 0x0402
  | nop => 0x0403
  | other code => code

def MsgType.named : List MsgType :=
  [attach, detach, kill, ok, error, attachReply, roleChange, clientEvent, roleRequest, input, output, flowCtrl,
   refresh, inputBegin, inputEnd, ptyFlags, winResize, termColors, attrTxnBegin, attrTxnCommit, attrTxnRollback,
   attrTxnOk, attrSet, attrDelete, attrGet, attrValue, attrList, attrEntries, attrOk, proxyReady, proxyWinAdded,
   proxyWinRemoved, nop]

def MsgType.ofCode (code : Nat) : MsgType := (MsgType.named.find? (·.code == code)).getD (.other code)

def be32 (n : Nat) : Bytes :=
  [UInt8.ofNat (n / 2 ^ 24), UInt8.ofNat (n / 2 ^ 16), UInt8.ofNat (n / 2 ^ 8), UInt8.ofNat n]

def readBe32 (a b c d : UInt8) : Nat := a.toNat * 2 ^ 24 + b.toNat * 2 ^ 16 + c.toNat * 2 ^ 8 + d.toNat

def ipcMsgFrame (type : MsgType) (payload : Bytes) : Bytes :=
  be32 type.code ++ be32 payload.length ++ payload

theorem length_ipcMsgFrame (type : MsgType) (payload : Bytes) :
    (ipcMsgFrame type payload).length = ipcHdrSize + payload.length := by
  simp only [ipcMsgFrame, be32, length_append, length_cons, length_nil, ipcHdrSize]

def readFull (n : Nat) (stream : Bytes) : Option (Bytes × Bytes) :=
  if n ≤ stream.length then some (stream.take n, stream.drop n) else none

/-- The first message of the bytes, and what follows it. -/
def ipcMsgRecv (bufsz : Nat) : Bytes → Option (MsgType × Bytes × Bytes)
  | t₀ :: t₁ :: t₂ :: t₃ :: l₀ :: l₁ :: l₂ :: l₃ :: stream => do
    let type := MsgType.ofCode (readBe32 t₀ t₁ t₂ t₃)
    let len := readBe32 l₀ l₁ l₂ l₃
    if len > ipcMaxPayload then none
    else if len ≤ bufsz then
      let (payload, rest) ← readFull len stream
      return (type, payload, rest)
    else
      let (payload, excess) ← readFull bufsz stream
      let (_, rest) ← readFull (len - bufsz) excess
      return (type, payload, rest)
  | _ => none

theorem readBe32_be32 (n : Nat) :
    readBe32 (UInt8.ofNat (n / 2 ^ 24)) (UInt8.ofNat (n / 2 ^ 16)) (UInt8.ofNat (n / 2 ^ 8)) (UInt8.ofNat n) =
      n % 2 ^ 32 := by
  simp only [readBe32, UInt8.toNat_ofNat']
  omega

theorem readBe32_lt (a b c d : UInt8) : readBe32 a b c d < 2 ^ 32 := by
  have := a.toNat_lt
  have := b.toNat_lt
  have := c.toNat_lt
  have := d.toNat_lt
  unfold readBe32
  omega

theorem be32_readBe32 (a b c d : UInt8) : be32 (readBe32 a b c d) = [a, b, c, d] := by
  have bounds : a.toNat < 2 ^ 8 ∧ b.toNat < 2 ^ 8 ∧ c.toNat < 2 ^ 8 ∧ d.toNat < 2 ^ 8 :=
    ⟨a.toNat_lt, b.toNat_lt, c.toNat_lt, d.toNat_lt⟩
  have low (n : Nat) (x : UInt8) (same : n % 2 ^ 8 = x.toNat) : UInt8.ofNat n = x := by
    rw [← UInt8.toNat_inj, UInt8.toNat_ofNat']
    exact same
  unfold be32
  rw [low _ a, low _ b, low _ c, low _ d] <;> · unfold readBe32; omega

def MsgType.OnWire (t : MsgType) : Prop := t.code < 2 ^ 32 ∧ MsgType.ofCode t.code = t
  deriving Decidable

theorem readFull_append (xs ys : Bytes) : readFull xs.length (xs ++ ys) = some (xs, ys) := by
  simp [readFull]

theorem ipcMsgRecv_frame {type} (onWire : type.OnWire) {payload} (fits : payload.length ≤ ipcMaxPayload) (bufsz : Nat)
    (rest : Bytes) :
    ipcMsgRecv bufsz (ipcMsgFrame type payload ++ rest) = some (type, payload.take bufsz, rest) := by
  have max : ipcMaxPayload = 65536 := rfl
  have code : type.code % 2 ^ 32 = type.code := Nat.mod_eq_of_lt onWire.1
  have len : payload.length % 2 ^ 32 = payload.length := Nat.mod_eq_of_lt (by omega)
  simp only [ipcMsgFrame, be32, cons_append, nil_append, ipcMsgRecv, readBe32_be32, code, len, onWire.2]
  rw [if_neg (Nat.not_lt.mpr fits)]
  split
  · rename_i short
    rw [readFull_append, take_of_length_le short]
    rfl
  · rename_i long
    have first : readFull bufsz (payload ++ rest) = some (payload.take bufsz, payload.drop bufsz ++ rest) := by
      rw [readFull, if_pos (by rw [length_append]; omega), take_append_of_le_length (by omega),
        drop_append_of_le_length (by omega)]
    have second : readFull (payload.length - bufsz) (payload.drop bufsz ++ rest) = some (payload.drop bufsz, rest) := by
      rw [← length_drop]
      exact readFull_append _ _
    rw [first]
    simp only [bind_eq_bind, bind_some, second]
    rfl

theorem readFull_split {bufsz len} (long : bufsz ≤ len) (stream : Bytes) :
    ((readFull bufsz stream).bind fun part => (readFull (len - bufsz) part.2).map fun excess => (part.1, excess.2)) =
      (readFull len stream).map fun whole => (whole.1.take bufsz, whole.2) := by
  by_cases enough : len ≤ stream.length
  · simp only [readFull, if_pos enough, if_pos (Nat.le_trans long enough), bind_some, map_some,
      length_drop, if_pos (Nat.sub_le_sub_right enough bufsz), drop_drop, take_take,
      Nat.add_sub_cancel' long, Nat.min_eq_left long]
  · simp only [readFull, if_neg enough, map_none]
    split
    · simp only [bind_some, length_drop]
      rw [if_neg (by omega), map_none]
    · rfl

theorem recvBody_take (type : MsgType) {max len} (bufsz : Nat) (allowed : len ≤ max) (stream : Bytes) :
    (if len ≤ bufsz then (readFull len stream).bind fun part => some (type, part.1, part.2)
      else (readFull bufsz stream).bind fun part => (readFull (len - bufsz) part.2).bind fun excess =>
        some (type, part.1, excess.2)) = (if len ≤ max then (readFull len stream).bind fun part => some (type, part.1, part.2)
      else (readFull max stream).bind fun part => (readFull (len - max) part.2).bind fun excess =>
        some (type, part.1, excess.2)).map fun m => (m.1, m.2.1.take bufsz, m.2.2) := by
  rw [if_pos allowed]
  split
  · rename_i fits
    by_cases enough : len ≤ stream.length
    · simp only [readFull, if_pos enough, bind_some, map_some, take_take, Nat.min_eq_right fits]
    · simp only [readFull, if_neg enough, bind_none, map_none]
  · rename_i long
    have parts := readFull_split (Nat.le_of_not_le long) stream
    cases whole : readFull len stream with
    | none =>
      rw [whole] at parts
      cases first : readFull bufsz stream with
      | none => rfl
      | some part =>
        rw [first] at parts
        have second : readFull (len - bufsz) part.2 = none := by simpa using parts
        simp only [bind_some, second, bind_none, map_none]
    | some all =>
      rw [whole] at parts
      obtain ⟨part, first, split⟩ := bind_eq_some_iff.mp parts
      obtain ⟨excess, second, same⟩ := map_eq_some_iff.mp split
      rw [Prod.mk.injEq] at same
      simp only [first, second, bind_some, map_some, same.1, same.2]

theorem ipcMsgRecv_take (bufsz : Nat) (wire : Bytes) :
    ipcMsgRecv bufsz wire = (ipcMsgRecv ipcMaxPayload wire).map fun m => (m.1, m.2.1.take bufsz, m.2.2) := by
  unfold ipcMsgRecv
  generalize ipcMaxPayload = max
  split
  · dsimp only
    split
    · rfl
    · exact recvBody_take _ bufsz (Nat.not_lt.mp ‹_›) _
  · rfl

end Lumimux.Ipc
