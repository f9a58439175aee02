import Lumimux.Libtext.Files

/-!
# The hex view of the editor (`cmd/edit/hex.c`, `cmd/edit/edit.c`)

The hex view shows the lines as one stream of bytes with the newlines between them.
-/

namespace Lumimux.Libtext
open Lib List

def newlineAfter (final : Bool) (rest : List Line) : Bytes := if 0 < rest.length ∨ final then [newline] else []

def hexTotalLoop (final : Bool) : List Line → Nat
  | [] => 0
  | l :: rest => l.length + (newlineAfter final rest).length + hexTotalLoop final rest

def Text.hexTotal (t : Text) : Nat := hexTotalLoop t.finalNewline t.lines

def lineOffset (final : Bool) : List Line → Nat → Nat
  | l :: rest, i + 1 => l.length + (newlineAfter final rest).length + lineOffset final rest i
  | _, _ => 0

def Text.hexOffsetOf (t : Text) (cy cx : Nat) : Nat :=
  lineOffset t.finalNewline t.lines (if cy ≥ t.lines.length then t.lines.length - 1 else cy) + cx

def posLoop (final : Bool) (off : Nat) : (i base : Nat) → List Line → Option (Nat × Nat)
  | _, _, [] => none
  | i, base, l :: rest =>
    if off ≤ base + l.length then some (i, off - base)
    else posLoop final off (i + 1) (base + l.length + (newlineAfter final rest).length) rest

def Text.hexPosAt (t : Text) (off : Nat) : Nat × Nat :=
  (posLoop t.finalNewline off 0 0 t.lines).getD (t.lines.length - 1, t.textLineLen (t.lines.length - 1))

def gatherLoop (final : Bool) : (cx count : Nat) → List Line → Bytes
  | _, _, [] => []
  | cx, count, l :: rest =>
    let row := (l.drop cx).take count
    if row.length ≥ count then row
    else row ++ newlineAfter final rest ++ gatherLoop final 0 (count - row.length - (newlineAfter final rest).length) rest

def Text.hexGather (t : Text) (start count : Nat) : Bytes :=
  gatherLoop t.finalNewline (t.hexPosAt start).2 count (t.lines.drop (t.hexPosAt start).1)

structure Editor where
  t : Text
  cy : Nat
  cx : Nat
  status : String := ""

namespace Editor

def offset (e : Editor) : Nat := e.t.hexOffsetOf e.cy e.cx

def stream (e : Editor) : Bytes := e.t.textSave.1

def grouped (t : Text) (edit : Text → Text) : Text := (edit t.textUndoGroupBegin).textUndoGroupEnd

def moveTo (e : Editor) (off : Nat) : Editor := { e with cy := (e.t.hexPosAt off).1, cx := (e.t.hexPosAt off).2 }

def hexOverwrite (e : Editor) (v : UInt8) : Editor × Bool :=
  if e.offset ≥ e.t.hexTotal then ({ e with status := "no byte to overwrite" }, false)
  else
    let (cy, cx) := e.t.hexPosAt e.offset
    if cx ≥ e.t.textLineLen cy ∨ v = newline then
      ({ e with status := "newline bytes are structural (not editable yet)" }, false)
    else
      ({ e with
        t := grouped e.t fun t => (t.perform (.delete cy cx 1)).perform (.insert cy cx [v])
        cy := cy
        cx := cx }, true)

def hexInsertByte (e : Editor) (v : UInt8) : Editor :=
  let (cy, cx) := e.t.hexPosAt e.offset
  let t := grouped e.t (·.perform (if v = newline then .split cy cx else .insert cy cx [v]))
  { e with t := t }.moveTo (e.offset + 1)

def settled (e : Editor) (t : Text) : Editor :=
  if t.hexTotal = 0 then { e with t := t, cy := 0, cx := 0 }
  else { e with t := t }.moveTo (if e.offset ≥ t.hexTotal then t.hexTotal - 1 else e.offset)

def hexDeleteAt (e : Editor) : Editor × Bool :=
  if e.offset ≥ e.t.hexTotal then ({ e with status := "no byte to delete" }, false)
  else
    let (cy, cx) := e.t.hexPosAt e.offset
    if cx < e.t.textLineLen cy then (e.settled (grouped e.t (·.perform (.delete cy cx 1))), true)
    else if cy + 1 < e.t.lines.length then (e.settled (grouped e.t (·.perform (.join cy))), true)
    else ({ e with status := "the trailing newline is not a deletable byte" }, false)

end Editor

variable {final : Bool} {before after before' after' : List Line} {l l' : Line} {t : Text} {cx cx' off : Nat}

def joined (before : List Line) : Bytes := before.flatMap (· ++ [newline])

theorem joined_cons (b : Line) (before : List Line) : joined (b :: before) = b ++ newline :: joined before := by
  simp [joined]

theorem newlineAfter_cons : newlineAfter final (l :: after) = [newline] := if_pos (.inl (Nat.succ_pos _))

theorem newlineAfter_middle : newlineAfter final (before ++ l :: after) = [newline] := if_pos (.inl (by simp))

def tail (final : Bool) (after : List Line) : Bytes := newlineAfter final after ++ writeLines final after

theorem writeLines_middle : writeLines final (before ++ l :: after) = joined before ++ (l ++ tail final after) := by
  induction before with
  | nil => exact append_assoc _ _ _
  | cons b before ih =>
    rw [cons_append, writeLines, ih, joined_cons, ← newlineAfter, newlineAfter_middle]
    simp

theorem tail_cons : tail final (l :: after) = newline :: (l ++ tail final after) := by
  rw [tail, newlineAfter_cons, writeLines, append_assoc]
  rfl

theorem hexTotalLoop_eq (lines : List Line) : hexTotalLoop final lines = (writeLines final lines).length := by
  induction lines with
  | nil => rfl
  | cons l rest ih => rw [hexTotalLoop, writeLines, ih, ← newlineAfter, length_append, length_append]

theorem lineOffset_middle : lineOffset final (before ++ l :: after) before.length = (joined before).length := by
  induction before with
  | nil => rfl
  | cons b before ih =>
    rw [cons_append, length_cons, lineOffset, ih, newlineAfter_middle, joined_cons]
    simp
    omega

theorem posLoop_middle (within : cx ≤ l.length) (i base : Nat) :
    posLoop final (base + (joined before).length + cx) i base (before ++ l :: after) = some (i + before.length, cx) := by
  induction before generalizing i base with
  | nil => simp [posLoop, joined, within]
  | cons b before ih =>
    have past : base + (joined (b :: before)).length + cx = base + b.length + 1 + (joined before).length + cx := by
      rw [joined_cons, length_append, length_cons]
      omega
    rw [cons_append, posLoop, past, if_neg (by omega), newlineAfter_middle, length_singleton, ih, length_cons]
    congr 2
    omega

structure Site (t : Text) (final : Bool) (before : List Line) (l : Line) (after : List Line) (cx : Nat) : Prop where
  lines : t.lines = before ++ l :: after
  final : t.finalNewline = final
  within : cx ≤ l.length

theorem exists_site (below : off < t.hexTotal) :
    ∃ before l after cx, Site t t.finalNewline before l after cx ∧ (joined before).length + cx = off := by
  suffices h : ∀ lines, off < hexTotalLoop t.finalNewline lines →
      ∃ before l after cx, lines = before ++ l :: after ∧ cx ≤ l.length ∧ (joined before).length + cx = off by
    obtain ⟨before, l, after, cx, lines, within, here⟩ := h t.lines below
    exact ⟨before, l, after, cx, ⟨lines, rfl, within⟩, here⟩
  clear below
  intro lines below
  induction lines generalizing off with
  | nil => exact absurd below (Nat.not_lt_zero _)
  | cons l rest ih =>
    by_cases here : off ≤ l.length
    · exact ⟨[], l, rest, off, rfl, here, Nat.zero_add _⟩
    · rw [hexTotalLoop] at below
      cases rest with
      | nil =>
        have one : (newlineAfter t.finalNewline []).length ≤ 1 := by
          unfold newlineAfter
          split <;> simp
        rw [hexTotalLoop] at below
        omega
      | cons next rest =>
        rw [newlineAfter_cons, length_singleton] at below
        obtain ⟨before, l', after, cx, lines, within, there⟩ := @ih (off - l.length - 1) (by omega)
        refine ⟨l :: before, l', after, cx, by rw [lines, cons_append], within, ?_⟩
        rw [joined_cons, length_append, length_cons]
        omega

namespace Site

variable (site : Site t final before l after cx)
include site

theorem offset : t.hexOffsetOf before.length cx = (joined before).length + cx := by
  rw [Text.hexOffsetOf, site.lines, if_neg (by simp), lineOffset_middle]

theorem posAt : t.hexPosAt ((joined before).length + cx) = (before.length, cx) := by
  have found := @posLoop_middle t.finalNewline before after l cx site.within 0 0
  rw [Nat.zero_add, Nat.zero_add] at found
  rw [Text.hexPosAt, site.lines, found]
  rfl

theorem stream : t.textSave.1 = joined before ++ (l ++ tail final after) := by
  rw [Text.textSave, site.lines, site.final, writeLines_middle]

theorem lineLen : t.textLineLen before.length = l.length := by
  rw [Text.textLineLen, site.lines]
  simp

theorem inBounds : before.length < t.lines.length ∧ cx ≤ t.textLineLen before.length := by
  rw [site.lineLen, site.lines, length_append, length_cons]
  exact ⟨by omega, site.within⟩

theorem edit {op} (bounds : InBounds t op) (edited : editLines (before ++ l :: after) op = before' ++ l' :: after')
    (within : cx' ≤ l'.length) : Site (t.perform op) final before' l' after' cx' := by
  obtain ⟨lines, kept⟩ := perform_lines bounds
  exact ⟨by rw [lines, site.lines, edited], kept.trans site.final, within⟩

theorem begun : Site t.textUndoGroupBegin final before l after cx := ⟨site.lines, site.final, site.within⟩

theorem ended : Site t.textUndoGroupEnd final before l after cx := ⟨site.lines, site.final, site.within⟩

end Site

namespace Editor

/-- An edit that is made leaves the bytes `stream` and the cursor at `off`, one that is refused changes neither. -/
def Leaves (e : Editor) (out : Editor × Bool) (stream : Bytes) (off : Nat) : Prop :=
  if out.2 then out.1.stream = stream ∧ out.1.offset = off else out.1.stream = e.stream ∧ out.1.offset = e.offset

variable {e : Editor} {stream : Bytes}

theorem offset_moveTo (site : Site e.t final before l after cx) (here : (joined before).length + cx = off) :
    (e.moveTo off).offset = off := by
  rw [offset, moveTo, ← here, site.posAt]
  exact site.offset

theorem leaves_settled (text : t.textSave.1 = stream) :
    Leaves e (e.settled t, true) stream (min e.offset (stream.length - 1)) := by
  have total : t.hexTotal = stream.length := by
    rw [← text]
    exact hexTotalLoop_eq t.lines
  rw [← total]
  unfold settled
  split
  · rename_i none
    refine ⟨text, ?_⟩
    rw [none, offset, Text.hexOffsetOf, Nat.zero_sub, Nat.min_zero]
    cases t.lines <;> rfl
  · refine ⟨text, ?_⟩
    obtain ⟨before, l, after, cx, site, here⟩ :=
      @exists_site t (if e.offset ≥ t.hexTotal then t.hexTotal - 1 else e.offset) (by split <;> omega)
    refine (@offset_moveTo _ _ _ _ _ _ { e with t := t } site here).trans ?_
    split <;> omega

theorem eraseIdx_here (xs : Bytes) (x : UInt8) (zs : Bytes) : (xs ++ x :: zs).eraseIdx xs.length = xs ++ zs := by
  rw [eraseIdx_append_of_length_le (Nat.le_refl _), Nat.sub_self]
  rfl

section Cursor

variable (site : Site e.t final before l after e.cx) (row : e.cy = before.length)
include site row

theorem offset_eq : e.offset = (joined before ++ l.take e.cx).length := by
  rw [offset, row, site.offset, length_append, length_take_of_le site.within]

theorem posAt_offset : e.t.hexPosAt e.offset = (before.length, e.cx) := by
  rw [offset, row, site.offset, site.posAt]

omit row in
theorem stream_eq : e.stream = (joined before ++ l.take e.cx) ++ (l.drop e.cx ++ tail final after) := by
  rw [Editor.stream, site.stream, append_assoc, ← append_assoc (l.take e.cx), take_append_drop]

theorem hexInsertByte_leaves (v : UInt8) :
    Leaves e (e.hexInsertByte v, true) (e.stream.insertIdx e.offset v) (e.offset + 1) := by
  have from_site : ∀ {t before' l' cx'}, Site t final before' l' after cx' →
      joined before' ++ l' = joined before ++ l.take e.cx ++ v :: l.drop e.cx →
      (joined before').length + cx' = e.offset + 1 →
      Leaves e ({ e with t := t }.moveTo (e.offset + 1), true) (e.stream.insertIdx e.offset v) (e.offset + 1) := by
    intro t before' l' cx' there text here
    refine ⟨there.stream.trans ?_, @offset_moveTo _ _ _ _ _ _ { e with t := t } there here⟩
    rw [stream_eq site, offset_eq site row, insertIdx_append, ← append_assoc, text, append_assoc, cons_append]
  rw [hexInsertByte, posAt_offset site row]
  dsimp only
  split
  · rename_i line
    have edited : Site (e.t.textUndoGroupBegin.perform (.split before.length e.cx)) final (before ++ [l.take e.cx])
        (l.drop e.cx) after 0 :=
      site.begun.edit site.begun.inBounds (by rw [editLines_split, append_assoc]; rfl) (Nat.zero_le _)
    refine from_site edited.ended ?_ ?_
    · simp [joined, line]
    · rw [offset_eq site row]
      simp [joined]
      omega
  · have edited : Site (e.t.textUndoGroupBegin.perform (.insert before.length e.cx [v])) final before
        (l.take e.cx ++ [v] ++ l.drop e.cx) after (e.cx + 1) :=
      site.begun.edit site.begun.inBounds (editLines_insert ..) (by have := site.within; simp; omega)
    refine from_site edited.ended (by simp) ?_
    rw [offset, row, site.offset, Nat.add_assoc]

omit row in
theorem stream_inner (inner : e.cx < l.length) :
    e.stream = (joined before ++ l.take e.cx) ++ l.get ⟨e.cx, inner⟩ :: (l.drop (e.cx + 1) ++ tail final after) := by
  rw [stream_eq site, drop_eq_getElem_cons inner, cons_append]
  rfl

omit row in
theorem removed (inner : e.cx < l.length) : Site (e.t.textUndoGroupBegin.perform (.delete before.length e.cx 1)) final before
      (l.take e.cx ++ l.drop (e.cx + 1)) after e.cx :=
  site.begun.edit site.begun.inBounds (editLines_delete ..) (by simp; omega)

theorem hexOverwrite_leaves (v : UInt8) : Leaves e (e.hexOverwrite v) (e.stream.set e.offset v) e.offset := by
  unfold hexOverwrite
  split
  · exact ⟨rfl, rfl⟩
  rw [posAt_offset site row]
  dsimp only
  split
  · exact ⟨rfl, rfl⟩
  rename_i inner
  rw [site.lineLen, not_or, ge_iff_le, not_le] at inner
  have cut := length_take_of_le site.within
  have removed := removed site inner.1
  have written : Site ((e.t.textUndoGroupBegin.perform (.delete before.length e.cx 1)).perform
      (.insert before.length e.cx [v])) final before (l.take e.cx ++ [v] ++ l.drop (e.cx + 1)) after e.cx :=
    removed.edit removed.inBounds (by rw [editLines_insert, take_left' cut, drop_left' cut]) (by simp; omega)
  refine ⟨written.ended.stream.trans ?_, (written.ended.offset.trans site.offset.symm).trans (by rw [offset, row])⟩
  rw [stream_inner site inner.1, offset_eq site row, set_middle]
  simp

theorem hexDeleteAt_leaves :
    Leaves e e.hexDeleteAt (e.stream.eraseIdx e.offset) (min e.offset ((e.stream.eraseIdx e.offset).length - 1)) := by
  unfold hexDeleteAt
  split
  · exact ⟨rfl, rfl⟩
  rw [posAt_offset site row]
  dsimp only
  rw [site.lineLen, site.lines]
  split
  · rename_i inner
    refine leaves_settled ((removed site inner).ended.stream.trans ?_)
    rw [stream_inner site inner, offset_eq site row, eraseIdx_here]
    simp
  rename_i atEnd
  have whole : l.take e.cx = l := take_of_length_le (Nat.le_of_not_lt atEnd)
  split
  · rename_i more
    cases after with
    | nil => simp at more
    | cons next rest =>
      have joins : Site (e.t.textUndoGroupBegin.perform (.join before.length)) final before (l ++ next) rest e.cx :=
        site.begun.edit (site.lines.symm ▸ more : before.length + 1 < e.t.lines.length) (editLines_join ..)
          (by have := site.within; simp; omega)
      refine leaves_settled (joins.ended.stream.trans ?_)
      rw [stream_eq site, offset_eq site row, whole, drop_eq_nil_of_le (Nat.le_of_not_lt atEnd), nil_append,
        tail_cons, eraseIdx_here]
      simp
  · exact ⟨rfl, rfl⟩

/-! An edit is refused only where there is no byte that it can change. -/

theorem offset_lt_total (ahead : l.drop e.cx ++ tail final after ≠ []) : e.offset < e.t.hexTotal := by
  have total : e.t.hexTotal = e.stream.length := hexTotalLoop_eq e.t.lines
  have some_left := length_pos_iff.mpr ahead
  rw [total, stream_eq site, offset_eq site row]
  generalize joined before ++ l.take e.cx = passed
  rw [length_append]
  omega

theorem hexOverwrite_iff (v : UInt8) :
    (e.hexOverwrite v).2 = true ↔ e.cx < e.t.textLineLen e.cy ∧ v ≠ newline := by
  rw [row, site.lineLen]
  by_cases inner : e.cx < l.length
  · have below := offset_lt_total site row (by simp [inner])
    rw [hexOverwrite, if_neg (Nat.not_le.mpr below), posAt_offset site row]
    dsimp only
    rw [site.lineLen]
    by_cases line : v = newline
    · simp [line]
    · rw [if_neg (by simp [line, inner])]
      exact ⟨fun _ => ⟨inner, line⟩, fun _ => rfl⟩
  · have refused : (e.hexOverwrite v).2 = false := by
      unfold hexOverwrite
      split
      · rfl
      · rw [posAt_offset site row]
        dsimp only
        rw [site.lineLen, if_pos (.inl (Nat.le_of_not_lt inner))]
    rw [refused]
    exact iff_of_false Bool.false_ne_true fun edit => inner edit.1

theorem hexDeleteAt_iff :
    e.hexDeleteAt.2 = true ↔ e.cx < e.t.textLineLen e.cy ∨ e.cy + 1 < e.t.lines.length := by
  rw [row, site.lineLen]
  by_cases able : e.cx < l.length ∨ before.length + 1 < e.t.lines.length
  · have below : e.offset < e.t.hexTotal := by
      refine offset_lt_total site row ?_
      rcases able with inner | more
      · simp [inner]
      · cases after with
        | nil => simp [site.lines] at more
        | cons next rest => simp [tail_cons]
    rw [hexDeleteAt, if_neg (Nat.not_le.mpr below), posAt_offset site row]
    dsimp only
    rw [site.lineLen]
    refine ⟨fun _ => able, fun _ => ?_⟩
    split
    · rfl
    · rename_i atEnd
      rw [if_pos (able.resolve_left atEnd)]
  · have refused : e.hexDeleteAt.2 = false := by
      unfold hexDeleteAt
      split
      · rfl
      · rw [posAt_offset site row]
        dsimp only
        rw [site.lineLen, if_neg fun inner => able (.inl inner), if_neg fun more => able (.inr more)]
    rw [refused]
    exact iff_of_false Bool.false_ne_true able

end Cursor

end Editor

theorem gatherLoop_whole {count lines} (room : (writeLines final lines).length ≤ count) :
    gatherLoop final 0 count lines = writeLines final lines := by
  induction lines generalizing count with
  | nil => rfl
  | cons l rest ih =>
    rw [writeLines, ← newlineAfter] at room ⊢
    rw [length_append, length_append] at room
    rw [gatherLoop, drop_zero, take_of_length_le (by omega)]
    split
    · rw [length_eq_zero_iff.mp (by omega : (newlineAfter final rest).length = 0),
        length_eq_zero_iff.mp (by omega : (writeLines final rest).length = 0)]
      simp
    · rw [ih (by omega)]

theorem hexGather_whole (nonempty : t.lines ≠ []) : t.hexGather 0 t.hexTotal = t.textSave.1 := by
  obtain ⟨first, rest, lines⟩ := exists_cons_of_ne_nil nonempty
  have start : Site t t.finalNewline [] first rest 0 := ⟨lines, rfl, Nat.zero_le _⟩
  have zero : t.hexPosAt 0 = (0, 0) := start.posAt
  rw [Text.hexGather, zero]
  exact gatherLoop_whole (hexTotalLoop_eq t.lines).ge

/-- **The hex view is a view of the saved bytes**: it shows them, offsets and positions are each other's inverse, and
each edit is the edit of a byte of the list. Overwriting is refused at the end of a line and for a newline, deleting
only at the end of the last line. -/
structure HexFaithful (e : Editor) (v : UInt8) : Prop where
  gather : e.t.hexGather 0 e.t.hexTotal = e.stream
  offset_posAt : ∀ off < e.t.hexTotal, e.t.hexOffsetOf (e.t.hexPosAt off).1 (e.t.hexPosAt off).2 = off
  posAt_offset : e.t.hexPosAt e.offset = (e.cy, e.cx)
  insert : e.Leaves (e.hexInsertByte v, true) (e.stream.insertIdx e.offset v) (e.offset + 1)
  overwrite : e.Leaves (e.hexOverwrite v) (e.stream.set e.offset v) e.offset
  overwrites : (e.hexOverwrite v).2 = true ↔ e.cx < e.t.textLineLen e.cy ∧ v ≠ newline
  delete : e.Leaves e.hexDeleteAt (e.stream.eraseIdx e.offset) (min e.offset ((e.stream.eraseIdx e.offset).length - 1))
  deletes : e.hexDeleteAt.2 = true ↔ e.cx < e.t.textLineLen e.cy ∨ e.cy + 1 < e.t.lines.length

theorem hex_faithful (e : Editor) (v : UInt8) (inside : e.t.outside e.cy e.cx = false) : HexFaithful e v := by
  obtain ⟨before, l, after, lines, row, within, -⟩ := split_of_inside inside
  have site : Site e.t e.t.finalNewline before l after e.cx := ⟨lines, rfl, within⟩
  refine ⟨?_, ?_, (Editor.posAt_offset site row.symm).trans (by rw [row]), Editor.hexInsertByte_leaves site row.symm v,
    Editor.hexOverwrite_leaves site row.symm v, Editor.hexOverwrite_iff site row.symm v,
    Editor.hexDeleteAt_leaves site row.symm, Editor.hexDeleteAt_iff site row.symm⟩
  · exact hexGather_whole (by simp [lines])
  · intro off below
    obtain ⟨before, l, after, cx, site, here⟩ := exists_site below
    rw [← here, site.posAt]
    exact site.offset

def twoLines : Editor := { t := textNew.textLoad [97, 98, 10, 99, 10], cy := 0, cx := 2 }

theorem twoLines_faithful : twoLines.t.outside twoLines.cy twoLines.cx = false ∧ HexFaithful twoLines newline :=
  ⟨by decide +kernel, hex_faithful twoLines newline (by decide +kernel)⟩

end Lumimux.Libtext
