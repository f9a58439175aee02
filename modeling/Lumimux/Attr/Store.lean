import Mathlib.Data.List.FinRange
import Mathlib.Logic.Function.Basic
import Lumimux.Lib.Decimal

/-!
# The attribute store (`libattr/attr_store.c`)

A table of entries with generations and a pool of four transactions, each with a read set and a write set.
-/

namespace Lumimux.Attr
open Lib

def attrMaxKeys : Nat := 64
def attrMaxKeyLen : Nat := 128
def attrMaxValueLen : Nat := 1024
def attrTxnMax : Nat := 4
def attrTxnKeysMax : Nat := 16

/-- A copy into a buffer of `size` bytes. -/
def copyString (size : Nat) (s : Bytes) : Bytes := s.take (size - 1)

/-- A key, its value and when it was last written. -/
structure AttrEntry where
  key : Bytes
  value : Bytes
  gen : Nat
  deriving DecidableEq, Repr

/-- A key and its generation at the first touch. -/
structure AttrTouch where
  key : Bytes
  gen : Nat
  deriving DecidableEq, Repr

/-- A staged set or delete. -/
structure AttrWrite where
  key : Bytes
  value : Bytes
  isDelete : Bool
  deriving DecidableEq, Repr

/-- A slot of the pool. -/
structure AttrTxn where
  inUse : Bool := false
  clientFd : Option Nat := none
  txnId : Nat := 0
  readSet : List AttrTouch := []
  writeSet : List AttrWrite := []
  deriving DecidableEq, Repr

/-- The committed entries and the pool. -/
structure AttrStore where
  entries : List AttrEntry := []
  nextGen : Nat := 1
  txns : Fin attrTxnMax → AttrTxn := fun _ => {}
  nextTxnId : Nat := 1

/-- Notes the generation of a key once. -/
def AttrTxn.touchRead (txn : AttrTxn) (key : Bytes) (gen : Nat) : Option AttrTxn :=
  if txn.readSet.any (·.key == key) then some txn
  else if txn.readSet.length ≥ attrTxnKeysMax then none
  else some { txn with readSet := txn.readSet ++ [⟨copyString attrMaxKeyLen key, gen⟩] }

def AttrTxn.findWrite (txn : AttrTxn) (key : Bytes) : Option Nat := txn.writeSet.findIdx? (·.key == key)

/-- Stages a write, in place of an earlier one of the key. -/
def AttrTxn.stage (txn : AttrTxn) (key value : Bytes) (isDelete : Bool) : Option AttrTxn :=
  match txn.findWrite key with
  | some i => some { txn with writeSet := txn.writeSet.modify i fun w => { w with value := value, isDelete := isDelete } }
  | none =>
    if txn.writeSet.length ≥ attrTxnKeysMax then none
    else some { txn with writeSet := txn.writeSet ++ [⟨copyString attrMaxKeyLen key, value, isDelete⟩] }

namespace AttrStore

def findEntry (entries : List AttrEntry) (key : Bytes) : Option Nat := entries.findIdx? (·.key == key)

/-- The generation of a key, 0 if it has no entry. -/
def genOf (entries : List AttrEntry) (key : Bytes) : Nat :=
  match entries.find? (·.key == key) with
  | some e => e.gen
  | none => 0

def findTxn (st : AttrStore) (txnId : Nat) : Option (Fin attrTxnMax) :=
  (List.finRange attrTxnMax).find? fun k => (st.txns k).inUse && (st.txns k).txnId == txnId

def setTxn (st : AttrStore) (k : Fin attrTxnMax) (txn : AttrTxn) : AttrStore :=
  { st with txns := Function.update st.txns k txn }

def clearTxn (st : AttrStore) (k : Fin attrTxnMax) : AttrStore := st.setTxn k {}

/-- Takes a free slot, if there is one. -/
def txnBegin (st : AttrStore) (clientFd : Option Nat) : AttrStore × Option Nat :=
  match (List.finRange attrTxnMax).find? fun k => !(st.txns k).inUse with
  | some k =>
    ({ st.setTxn k { inUse := true, clientFd := clientFd, txnId := st.nextTxnId } with
        nextTxnId := (st.nextTxnId + 1) % 2 ^ 32 }, some st.nextTxnId)
  | none => (st, none)

/-- The conflict check of a commit. -/
def unchanged (st : AttrStore) (txn : AttrTxn) : Bool :=
  txn.readSet.all fun t => genOf st.entries t.key == t.gen

/-- A write of a commit; fails when the table is full. -/
def applyWrite (entries : List AttrEntry) (nextGen : Nat) (w : AttrWrite) : Option (List AttrEntry × Nat) :=
  match findEntry entries w.key with
  | some i =>
    if w.isDelete then
      -- the last entry takes the place of the deleted one
      some (((entries.getLast?.elim entries (entries.set i ·))).dropLast, nextGen)
    else
      some (entries.modify i (fun e => { e with value := copyString attrMaxValueLen w.value, gen := nextGen }),
        (nextGen + 1) % 2 ^ 64)
  | none =>
    if w.isDelete then some (entries, nextGen)
    else if entries.length ≥ attrMaxKeys then none
    else some (entries ++ [⟨copyString attrMaxKeyLen w.key, copyString attrMaxValueLen w.value, nextGen⟩],
      (nextGen + 1) % 2 ^ 64)

/-- The loop of a commit, which stops at a failure. -/
def applyWrites (entries : List AttrEntry) (nextGen : Nat) : List AttrWrite → (List AttrEntry × Nat) × Bool
  | [] => ((entries, nextGen), true)
  | w :: rest =>
    match applyWrite entries nextGen w with
    | some (entries, nextGen) => applyWrites entries nextGen rest
    | none => ((entries, nextGen), false)

/-- Applies the writes unless a touched key changed. -/
def txnCommit (st : AttrStore) (txnId : Nat) : AttrStore × Bool :=
  match st.findTxn txnId with
  | none => (st, false)
  | some k =>
    if st.unchanged (st.txns k) then
      let ((entries, nextGen), ok) := applyWrites st.entries st.nextGen (st.txns k).writeSet
      ({ st.clearTxn k with entries := entries, nextGen := nextGen }, ok)
    else (st.clearTxn k, false)

def txnRollback (st : AttrStore) (txnId : Nat) : AttrStore :=
  match st.findTxn txnId with
  | some k => st.clearTxn k
  | none => st

def txnRollbackClient (st : AttrStore) (clientFd : Option Nat) : AttrStore :=
  { st with txns := fun k =>
      if (st.txns k).inUse = true ∧ (st.txns k).clientFd = clientFd then {} else st.txns k }

def touch (st : AttrStore) (k : Fin attrTxnMax) (key : Bytes) : Option AttrTxn :=
  (st.txns k).touchRead key (genOf st.entries key)

/-- The body of set and delete. -/
def touchAndStage (st : AttrStore) (k : Fin attrTxnMax) (key value : Bytes) (isDelete : Bool) : AttrStore × Bool :=
  match st.touch k key with
  | none => (st, false)
  | some touched =>
    match touched.stage key value isDelete with
    | none => (st.setTxn k touched, false)
    | some staged => (st.setTxn k staged, true)

def set (st : AttrStore) (txnId : Nat) (key value : Bytes) : AttrStore × Bool :=
  match st.findTxn txnId with
  | none => (st, false)
  | some k =>
    if key.length = 0 ∨ key.length ≥ attrMaxKeyLen ∨ value.length ≥ attrMaxValueLen then (st, false)
    else st.touchAndStage k key (copyString attrMaxValueLen value) false

def delete (st : AttrStore) (txnId : Nat) (key : Bytes) : AttrStore × Bool :=
  match st.findTxn txnId with
  | none => (st, false)
  | some k => st.touchAndStage k key [] true

/-- Sees the transaction's own writes first. -/
def get (st : AttrStore) (txnId : Nat) (key : Bytes) (valueMax : Nat) : AttrStore × Option Bytes :=
  match st.findTxn txnId with
  | none => (st, none)
  | some k =>
    match st.touch k key with
    | none => (st, none)
    | some touched =>
      let found :=
        match touched.writeSet.find? (·.key == key) with
        | some w => if w.isDelete then none else some (copyString valueMax w.value)
        | none => (st.entries.find? (·.key == key)).map fun e => copyString valueMax e.value
      (st.setTxn k touched, found)

/-- The reply buffer while it is filled. -/
structure Listing where
  done : Bytes := []
  text : Bytes := []

def Listing.line (bufMax : Nat) (l : Listing) (key value : Bytes) : Listing × Bool :=
  let line := key ++ ascii "=" ++ value ++ ascii "\n"
  if l.done.length + line.length ≥ bufMax then
    ({ l with text := l.done ++ line.take (bufMax - l.done.length - 1) }, false)
  else ({ done := l.done ++ line, text := l.done ++ line }, true)

def Listing.lines (bufMax : Nat) (l : Listing) : List (Bytes × Bytes) → Listing
  | [] => l
  | (key, value) :: rest =>
    match l.line bufMax key value with
    | (l, true) => l.lines bufMax rest
    | (l, false) => l

def list (st : AttrStore) (txnId bufMax : Nat) : Option Bytes :=
  (st.findTxn txnId).map fun k =>
    let writes := (st.txns k).writeSet
    let committed := st.entries.filterMap fun e =>
      match writes.find? (·.key == e.key) with
      | some w => if w.isDelete then none else some (w.key, w.value)
      | none => some (e.key, e.value)
    let added := writes.filterMap fun w =>
      if w.isDelete ∨ (findEntry st.entries w.key).isSome then none else some (w.key, w.value)
    ((({} : Listing).lines bufMax committed).lines bufMax added).text

end AttrStore

end Lumimux.Attr
