import Lumimux.Lib.Lines
import Lumimux.Lib.ListEdit
import Lumimux.Lib.UndoLog

/-!
# The text buffer

`libtext/text.c`: an array of lines with an undo log. Each edit records the primitive that reverses it; undo and redo
replay the records of a group together.
-/

namespace Lumimux.Libtext

open Lib List

inductive Eop
  | insert (line col : Nat) (bytes : Bytes)
  | delete (line col n : Nat)
  | split (line col : Nat)
  | join (line : Nat)
  deriving DecidableEq, Repr

abbrev Erec := Tagged Eop UInt32

abbrev Line := Bytes

structure Text where
  lines : List Line
  finalNewline : Bool
  dirty : Bool
  rev : UInt64
  undo : List Erec
  redo : List Erec
  canCoalesce : Bool
  curGroup : UInt32
  groupDepth : UInt32
  groupSeq : UInt32
  /-- a call reached outside the line array -/
  fault : Bool
  deriving DecidableEq, Repr

def textNew : Text := ⟨[[]], false, false, 0, [], [], false, 0, 0, 0, false⟩

def splitLines (pending : Line) : Bytes → List Line
  | [] => if pending.isEmpty then [] else [pending]
  | b :: data => if b = newline then pending :: splitLines [] data else splitLines (pending ++ [b]) data

def Text.textLoad (t : Text) (data : Bytes) : Text :=
  let lines := splitLines [] data
  { t with
    lines := if lines.isEmpty then [[]] else lines
    finalNewline := data.getLast? = some newline
    dirty := false
    undo := []
    redo := []
    canCoalesce := false
    curGroup := 0
    groupDepth := 0 }

def writeLines (finalNewline : Bool) : List Line → Bytes
  | [] => []
  | line :: rest => line ++ (if 0 < rest.length ∨ finalNewline then [newline] else []) ++ writeLines finalNewline rest

def Text.textSave (t : Text) : Bytes × Text := (writeLines t.finalNewline t.lines, { t with dirty := false })

def applyOp (lines : List Line) : Eop → Option (List Line × Eop)
  | .insert line col bytes =>
    match lines[line]? with
    | none => none
    | some l =>
      if col > l.length then none
      else some (lines.set line (l.take col ++ bytes ++ l.drop col), .delete line col bytes.length)
  | .delete line col n =>
    match lines[line]? with
    | none => none
    | some l =>
      if col > l.length then none
      else
        let nn := min n (l.length - col)
        some (lines.set line (l.take col ++ l.drop (col + nn)), .insert line col ((l.drop col).take nn))
  | .split line col =>
    match lines[line]? with
    | none => none
    | some l =>
      if col > l.length then none
      else some ((lines.insertIdx (line + 1) (l.drop col)).set line (l.take col), .join line)
  | .join line =>
    match lines[line]?, lines[line + 1]? with
    | some l, some next => some ((lines.set line (l ++ next)).eraseIdx (line + 1), .split line l.length)
    | _, _ => none

def Text.applyOp (t : Text) (op : Eop) : Option (Text × Eop) :=
  match Lumimux.Libtext.applyOp t.lines op with
  | none => none
  | some (lines, inv) => some ({ t with lines := lines, dirty := true, rev := t.rev + 1 }, inv)

def extendTop (group : UInt32) : Eop → List Erec → Option (List Erec)
  | .delete line col n, ⟨.delete topLine topCol topN, topGroup⟩ :: rest =>
    if topGroup = group ∧ topLine = line ∧ topCol + topN = col then
      some (⟨.delete topLine topCol (topN + n), topGroup⟩ :: rest)
    else none
  | _, _ => none

def Text.recordUndo (t : Text) (inv : Eop) : Text :=
  let pushed := ⟨inv, t.curGroup⟩ :: t.undo
  { t with
    redo := []
    undo := if t.canCoalesce then (extendTop t.curGroup inv t.undo).getD pushed else pushed }

def cursorAfter : (applied inv : Eop) → Nat × Nat
  | .insert line col bytes, _ => (line, col + bytes.length)
  | .delete line col _, _ => (line, col)
  | .split line _, _ => (line + 1, 0)
  | .join line, .split _ col => (line, col)
  | .join line, _ => (line, 0)

/-! ### Editing

The functions return the buffer and whether the call returned `OK`. -/

def Text.edit (t : Text) (op : Eop) (coalesce : Bool) : Text × Bool :=
  match t.applyOp op with
  | none => (t, false)
  | some (t, inv) => ({ t.recordUndo inv with canCoalesce := coalesce }, true)

def Text.outside (t : Text) (line col : Nat) : Bool :=
  match t.lines[line]? with
  | none => true
  | some l => col > l.length

def Text.textLineLen (t : Text) (line : Nat) : Nat := (t.lines[line]?.getD []).length

def Text.textInsert (t : Text) (line col : Nat) (s : Bytes) : Text × Bool :=
  if t.outside line col then (t, false)
  else if s.length = 0 then (t, true)
  else t.edit (.insert line col s) true

def Text.textDelete (t : Text) (line col n : Nat) : Text × Bool :=
  if t.outside line col then (t, false)
  else if n = 0 ∨ col = t.textLineLen line then (t, true)
  else { t with canCoalesce := false }.edit (.delete line col n) false

def Text.textSplit (t : Text) (line col : Nat) : Text × Bool :=
  if t.outside line col then (t, false) else { t with canCoalesce := false }.edit (.split line col) false

def sizeMax : Nat := 2 ^ 64 - 1

def Text.textJoin (t : Text) (line : Nat) : Text × Bool :=
  if (line + 1) % (sizeMax + 1) ≥ t.lines.length then (t, false)
  else if line ≥ t.lines.length then ({ t with fault := true }, false)
  else { t with canCoalesce := false }.edit (.join line) false

def Text.textUndoBoundary (t : Text) : Text := { t with canCoalesce := false }

def Text.textUndoGroupBegin (t : Text) : Text :=
  { t with
    curGroup := if t.groupDepth = 0 then t.groupSeq + 1 else t.curGroup
    groupSeq := if t.groupDepth = 0 then t.groupSeq + 1 else t.groupSeq
    groupDepth := t.groupDepth + 1
    canCoalesce := false }

def Text.textUndoGroupEnd (t : Text) : Text :=
  let depth := if t.groupDepth > 0 then t.groupDepth - 1 else t.groupDepth
  { t with
    groupDepth := depth
    curGroup := if depth = 0 then 0 else t.curGroup
    canCoalesce := false }

structure Replay where
  text : Text
  src : List Erec
  dst : List Erec
  cursor : Nat × Nat
  deriving DecidableEq, Repr

def undoApplyOne (t : Text) (record : Erec) (dst : List Erec) : Option (Text × List Erec × (Nat × Nat)) :=
  match t.applyOp record.op with
  | none => none
  | some (t, inv) => some (t, ⟨inv, record.tag⟩ :: dst, cursorAfter record.op inv)

def undoRest (group : UInt32) : Text → List Erec → List Erec → Nat × Nat → Replay
  | t, [], dst, cursor => ⟨t, [], dst, cursor⟩
  | t, record :: src, dst, cursor =>
    if group ≠ 0 ∧ record.tag = group then
      match undoApplyOne t record dst with
      | none => ⟨t, src, dst, cursor⟩
      | some (t, dst, cursor) => undoRest group t src dst cursor
    else ⟨t, record :: src, dst, cursor⟩

def undoStep (t : Text) (src dst : List Erec) : Replay × Bool :=
  let t := { t with canCoalesce := false }
  match src with
  | [] => (⟨t, [], dst, (0, 0)⟩, false)
  | record :: src =>
    match undoApplyOne t record dst with
    | none => (⟨t, src, dst, (0, 0)⟩, false)
    | some (t, dst, cursor) => (undoRest record.tag t src dst cursor, true)

def Text.textUndo (t : Text) : Text × Option (Nat × Nat) :=
  let (r, ok) := undoStep t t.undo t.redo
  ({ r.text with undo := r.src, redo := r.dst }, if ok then some r.cursor else none)

def Text.textRedo (t : Text) : Text × Option (Nat × Nat) :=
  let (r, ok) := undoStep t t.redo t.undo
  ({ r.text with undo := r.dst, redo := r.src }, if ok then some r.cursor else none)

inductive Call
  | insert (line col : Nat) (bytes : Bytes)
  | delete (line col n : Nat)
  | split (line col : Nat)
  | join (line : Nat)
  | boundary
  | groupBegin
  | groupEnd
  | undo
  | redo
  deriving DecidableEq, Repr

def Text.step (t : Text) : Call → Text
  | .insert line col bytes => (t.textInsert line col bytes).1
  | .delete line col n => (t.textDelete line col n).1
  | .split line col => (t.textSplit line col).1
  | .join line => (t.textJoin line).1
  | .boundary => t.textUndoBoundary
  | .groupBegin => t.textUndoGroupBegin
  | .groupEnd => t.textUndoGroupEnd
  | .undo => t.textUndo.1
  | .redo => t.textRedo.1

def Eop.call : Eop → Call
  | .insert line col bytes => .insert line col bytes
  | .delete line col n => .delete line col n
  | .split line col => .split line col
  | .join line => .join line

section Primitives

variable {before after : List Line} {l : Line} {col : Nat}

theorem applyOp_insert (within : col ≤ l.length) (bytes : Bytes) :
    applyOp (before ++ l :: after) (.insert before.length col bytes) =
      some (before ++ (l.take col ++ bytes ++ l.drop col) :: after, .delete before.length col bytes.length) := by
  simp only [applyOp, getElem?_append_right (le_refl _), Nat.sub_self, getElem?_cons_zero, set_middle]
  rw [if_neg (Nat.not_lt.mpr within)]

theorem applyOp_delete (within : col ≤ l.length) (n : Nat) : applyOp (before ++ l :: after) (.delete before.length col n) =
      some (before ++ (l.take col ++ l.drop (col + min n (l.length - col))) :: after,
        .insert before.length col ((l.drop col).take (min n (l.length - col)))) := by
  simp only [applyOp, getElem?_append_right (le_refl _), Nat.sub_self, getElem?_cons_zero, set_middle]
  rw [if_neg (Nat.not_lt.mpr within)]

theorem applyOp_split (within : col ≤ l.length) : applyOp (before ++ l :: after) (.split before.length col) =
      some (before ++ l.take col :: l.drop col :: after, .join before.length) := by
  simp only [applyOp, getElem?_append_right (le_refl _), Nat.sub_self, getElem?_cons_zero, insertIdx_middle,
    set_middle]
  rw [if_neg (Nat.not_lt.mpr within)]

theorem applyOp_join (next : Line) : applyOp (before ++ l :: next :: after) (.join before.length) =
      some (before ++ (l ++ next) :: after, .split before.length l.length) := by
  have second : (before ++ l :: next :: after)[before.length + 1]? = some next := by
    rw [getElem?_append_right (Nat.le_add_right _ 1), Nat.add_sub_cancel_left]
    rfl
  simp only [applyOp, getElem?_append_right (le_refl _), Nat.sub_self, getElem?_cons_zero, second, set_middle,
    eraseIdx_middle]

end Primitives

/-- A primitive that fits the lines it is applied to. -/
inductive Applied : List Line → Eop → Prop
  | insert {before after : List Line} {l : Line} {col : Nat} (within : col ≤ l.length) (bytes : Bytes) :
      Applied (before ++ l :: after) (.insert before.length col bytes)
  | delete {before after : List Line} {l : Line} {col : Nat} (within : col ≤ l.length) (n : Nat) :
      Applied (before ++ l :: after) (.delete before.length col n)
  | split {before after : List Line} {l : Line} {col : Nat} (within : col ≤ l.length) :
      Applied (before ++ l :: after) (.split before.length col)
  | join {before after : List Line} {l : Line} (next : Line) : Applied (before ++ l :: next :: after) (.join before.length)

theorem applied_of_applyOp {lines lines' op inv} (applied : applyOp lines op = some (lines', inv)) : Applied lines op := by
  cases op with
  | insert line col bytes | delete line col n | split line col =>
    rw [applyOp] at applied
    split at applied
    · cases applied
    · rename_i l found
      obtain ⟨before, after, rfl, rfl⟩ := split_of_getElem? found
      split at applied
      · cases applied
      · rename_i within
        constructor
        exact Nat.not_lt.mp within
  | join line =>
    rw [applyOp] at applied
    split at applied
    · rename_i l next found second
      obtain ⟨before, after, rfl, rfl⟩ := split_of_getElem? found
      rw [getElem?_append_right (Nat.le_add_right _ 1), Nat.add_sub_cancel_left, getElem?_cons_succ] at second
      obtain ⟨rest, rfl⟩ : ∃ rest, after = next :: rest := by
        cases after with
        | nil => cases second
        | cons x rest => exact ⟨rest, by cases second; rfl⟩
      exact .join next
    · cases applied

theorem delete_inserted {l : Line} {col : Nat} (within : col ≤ l.length) (bytes : Bytes) :
    (l.take col ++ bytes ++ l.drop col).take col ++ (l.take col ++ bytes ++ l.drop col).drop (col + bytes.length) = l := by
  have length : (l.take col).length = col := length_take_of_le within
  have front : (l.take col ++ bytes).length = col + bytes.length := by rw [length_append, length]
  rw [drop_left' front, append_assoc, take_left' length, take_append_drop]

theorem insert_deleted {l : Line} {col n : Nat} (within : col + n ≤ l.length) :
    (l.take col ++ l.drop (col + n)).take col ++ (l.drop col).take n ++ (l.take col ++ l.drop (col + n)).drop col = l := by
  have length : (l.take col).length = col := length_take_of_le (by omega)
  rw [take_left' length, drop_left' length, append_assoc, ← drop_drop, take_append_drop,
    take_append_drop]

theorem applyOp_reversible : Reversible applyOp := by
  intro lines op lines' inv applied
  cases applied_of_applyOp applied with
  | @insert before after l col within bytes =>
    rw [applyOp_insert within] at applied
    cases applied
    have length : (l.take col ++ bytes ++ l.drop col).length = l.length + bytes.length := by
      simp only [length_append, length_take, length_drop]
      omega
    have exactly : min bytes.length ((l.take col ++ bytes ++ l.drop col).length - col) = bytes.length := by omega
    exact ⟨_, by rw [applyOp_delete (by omega), exactly, delete_inserted within]⟩
  | @delete before after l col within n =>
    rw [applyOp_delete within] at applied
    cases applied
    have length : col ≤ (l.take col ++ l.drop (col + min n (l.length - col))).length := by
      simp only [length_append, length_take]
      omega
    exact ⟨_, by rw [applyOp_insert length, insert_deleted (by omega)]⟩
  | @split before after l col within =>
    rw [applyOp_split within] at applied
    cases applied
    exact ⟨_, by rw [applyOp_join, take_append_drop]⟩
  | @join before after l next =>
    rw [applyOp_join] at applied
    cases applied
    exact ⟨_, by rw [applyOp_split (by simp), take_left, drop_left]⟩

def Text.edited (t : Text) (lines : List Line) (inv : Eop) (coalesce : Bool) : Text :=
  { Text.recordUndo { t with lines := lines, dirty := true, rev := t.rev + 1 } inv with canCoalesce := coalesce }

theorem edit_eq {t : Text} {op inv : Eop} {lines : List Line} (applied : applyOp t.lines op = some (lines, inv))
    (coalesce : Bool) : t.edit op coalesce = (t.edited lines inv coalesce, true) := by
  rw [Text.edit, Text.applyOp, applied]
  rfl

theorem split_of_inside {t : Text} {line col : Nat} (inside : t.outside line col = false) :
    ∃ before l after, t.lines = before ++ l :: after ∧ before.length = line ∧ col ≤ l.length ∧
      t.textLineLen line = l.length := by
  rw [Text.outside] at inside
  split at inside
  · cases inside
  · rename_i l found
    obtain ⟨before, after, lines, length⟩ := split_of_getElem? found
    exact ⟨before, l, after, lines, length, Nat.not_lt.mp (of_decide_eq_false inside), by rw [Text.textLineLen, found]; rfl⟩

end Lumimux.Libtext
