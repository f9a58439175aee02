import Lumimux.Ipc.Msg

/-!
# Structured payloads (`libipc/microser.h`, `libipc/lumi_msg.c`)

A message is a 16-bit length and tagged fields. Every decoder is one loop with its own table of field numbers, and every
encoder writes its fields into a bounded buffer.
-/

namespace Lumimux.Ipc

def le16 (n : Nat) : Bytes := [UInt8.ofNat n, UInt8.ofNat (n / 2 ^ 8)]

def le32 (n : Nat) : Bytes :=
  [UInt8.ofNat n, UInt8.ofNat (n / 2 ^ 8), UInt8.ofNat (n / 2 ^ 16), UInt8.ofNat (n / 2 ^ 24)]

def msReadU8 : Bytes → Option (UInt8 × Bytes)
  | a :: rest => some (a, rest)
  | _ => none

def msReadU16 : Bytes → Option (Nat × Bytes)
  | a :: b :: rest => some (a.toNat + b.toNat * 2 ^ 8, rest)
  | _ => none

def msReadU32 : Bytes → Option (Nat × Bytes)
  | a :: b :: c :: d :: rest => some (a.toNat + b.toNat * 2 ^ 8 + c.toNat * 2 ^ 16 + d.toNat * 2 ^ 24, rest)
  | _ => none

def msReadBytes (buf : Bytes) : Option (Bytes × Bytes) := do
  let (len, rest) ← msReadU16 buf
  readFull len rest

def msSkip (wire : Nat) (buf : Bytes) : Option Bytes :=
  match wire with
  | 0 => (readFull 1 buf).map (·.2)
  | 1 => (readFull 2 buf).map (·.2)
  | 2 => (readFull 4 buf).map (·.2)
  | 3 => (readFull 8 buf).map (·.2)
  | 4 => (msReadBytes buf).map (·.2)
  | _ => none

abbrev FieldTable (σ : Type) := Nat → Option (σ → Bytes → Option (σ × Bytes))

def msFields {σ : Type} (table : FieldTable σ) : Nat → σ → Bytes → Option σ
  | _, msg, [] => some msg
  | 0, _, _ :: _ => none
  | rounds + 1, msg, tag :: rest => do
    match table (tag.toNat / 8) with
    | some read =>
      let (msg, rest) ← read msg rest
      msFields table rounds msg rest
    | none =>
      let rest ← msSkip (tag.toNat % 8) rest
      msFields table rounds msg rest

/-- Reads the fields in any order; an unknown one is skipped. -/
def msDecode {σ : Type} (table : FieldTable σ) (zero : σ) (buf : Bytes) : Option σ := do
  let (len, rest) ← msReadU16 buf
  let (body, _) ← readFull len rest
  msFields table len zero body

def fieldU8 {σ : Type} (set : σ → UInt8 → σ) : σ → Bytes → Option (σ × Bytes) :=
  fun msg buf => (msReadU8 buf).map fun (v, rest) => (set msg v, rest)

def fieldU16 {σ : Type} (set : σ → Nat → σ) : σ → Bytes → Option (σ × Bytes) :=
  fun msg buf => (msReadU16 buf).map fun (v, rest) => (set msg v, rest)

def fieldU32 {σ : Type} (set : σ → Nat → σ) : σ → Bytes → Option (σ × Bytes) :=
  fun msg buf => (msReadU32 buf).map fun (v, rest) => (set msg v, rest)

def fieldBytes {σ : Type} (set : σ → Bytes → σ) : σ → Bytes → Option (σ × Bytes) :=
  fun msg buf => (msReadBytes buf).map fun (v, rest) => (set msg v, rest)

def msWriteU8 (field : Nat) (v : UInt8) : Bytes := [UInt8.ofNat (field * 8 + 0), v]

def msWriteU16 (field v : Nat) : Bytes := UInt8.ofNat (field * 8 + 1) :: le16 v

def msWriteU32 (field v : Nat) : Bytes := UInt8.ofNat (field * 8 + 2) :: le32 v

def msWriteBytes (field : Nat) (data : Bytes) : Bytes :=
  UInt8.ofNat (field * 8 + 4) :: (le16 data.length ++ data)

/-- Writes the fields, if they fit. -/
def msEncode (bufsz : Nat) (fields : List Bytes) : Option Bytes :=
  let body := fields.flatten
  if 2 + body.length ≤ bufsz then some (le16 body.length ++ body) else none

structure IpcSize where
  rows : Nat := 0
  cols : Nat := 0
  cellPw : Nat := 0
  cellPh : Nat := 0
  deriving DecidableEq, Repr

def ipcSizeDecode : Bytes → Option IpcSize :=
  msDecode (fun
    | 1 => some (fieldU16 fun (m : IpcSize) v => { m with rows := v })
    | 2 => some (fieldU16 fun m v => { m with cols := v })
    | 8 => some (fieldU16 fun m v => { m with cellPw := v })
    | 9 => some (fieldU16 fun m v => { m with cellPh := v })
    | _ => none) {}

structure IpcAttach where
  rows : Nat := 0
  cols : Nat := 0
  flags : UInt8 := 0
  clientId : Nat := 0
  name : Bytes := []
  cellPw : Nat := 0
  cellPh : Nat := 0
  deriving DecidableEq, Repr

def attachTable : FieldTable IpcAttach
  | 1 => some (fieldU16 fun m v => { m with rows := v })
  | 2 => some (fieldU16 fun m v => { m with cols := v })
  | 3 => some (fieldU8 fun m v => { m with flags := v })
  | 4 => some (fieldU32 fun m v => { m with clientId := v })
  | 5 => some (fieldBytes fun m v => { m with name := v })
  | 8 => some (fieldU16 fun m v => { m with cellPw := v })
  | 9 => some (fieldU16 fun m v => { m with cellPh := v })
  | _ => none

def ipcAttachDecode : Bytes → Option IpcAttach := msDecode attachTable {}

def ipcAttachEncode (bufsz : Nat) (at_ : IpcAttach) : Option Bytes :=
  msEncode bufsz
    [msWriteU16 1 at_.rows, msWriteU16 2 at_.cols, msWriteU8 3 at_.flags, msWriteU32 4 at_.clientId,
     msWriteBytes 5 at_.name, msWriteU16 8 at_.cellPw, msWriteU16 9 at_.cellPh]

def ipcAttachReplyEncode (bufsz rows cols : Nat) (role nclients : UInt8) : Option Bytes :=
  msEncode bufsz [msWriteU16 1 rows, msWriteU16 2 cols, msWriteU8 3 role, msWriteU8 4 nclients]

structure IpcAttrKv where
  txnId : Nat := 0
  key : Bytes := []
  value : Bytes := []
  deriving DecidableEq, Repr

def ipcAttrKvDecode : Bytes → Option IpcAttrKv :=
  msDecode (fun
    | 1 => some (fieldU32 fun (m : IpcAttrKv) v => { m with txnId := v })
    | 2 => some (fieldBytes fun m v => { m with key := v })
    | 3 => some (fieldBytes fun m v => { m with value := v })
    | _ => none) {}

def ipcAttrKeyDecode : Bytes → Option IpcAttrKv :=
  msDecode (fun
    | 1 => some (fieldU32 fun (m : IpcAttrKv) v => { m with txnId := v })
    | 2 => some (fieldBytes fun m v => { m with key := v })
    | _ => none) {}

def ipcAttrTxnOkEncode (bufsz txnId : Nat) : Option Bytes := msEncode bufsz [msWriteU32 1 txnId]

def ipcAttrKvEncode (bufsz : Nat) (kv : IpcAttrKv) : Option Bytes :=
  msEncode bufsz [msWriteU32 1 kv.txnId, msWriteBytes 2 kv.key, msWriteBytes 3 kv.value]

def ipcAttrEntriesEncode (bufsz : Nat) (entries : Bytes) : Option Bytes :=
  msEncode bufsz [msWriteBytes 1 entries]

end Lumimux.Ipc
