import Lumimux.Lib.Run
import Lumimux.Libtext.Buffer

/-!
# Files survive the editor

A file is the list of its lines and whether it ends with a newline; edits within the text are edits of the list.
-/

namespace Lumimux.Libtext

open Lib List

def fileLines (file : Bytes) : List Line :=
  if file.getLast? = some newline then (file.splitOn newline).dropLast else file.splitOn newline

def fileOf (finalNewline : Bool) (lines : List Line) : Bytes :=
  [newline].intercalate lines ++ (if finalNewline then [newline] else [])

def editLines (lines : List Line) : Eop → List Line
  | .insert line col bytes => lines.modify line fun l => l.take col ++ bytes ++ l.drop col
  | .delete line col n => lines.modify line fun l => l.take col ++ l.drop (col + n)
  | .split line col =>
    lines.take line ++ ((lines.drop line).take 1).flatMap (fun l => [l.take col, l.drop col]) ++ lines.drop (line + 1)
  | .join line => lines.take line ++ [((lines.drop line).take 2).flatten] ++ lines.drop (line + 2)

variable {pending data : Bytes} {lines : List Line} {t : Text} {finalNewline : Bool}

theorem splitLines_ne_nil (nonempty : pending ++ data ≠ []) : splitLines pending data ≠ [] := by
  induction data generalizing pending with
  | nil =>
    rw [append_nil] at nonempty
    rw [splitLines, if_neg (by simpa using nonempty)]
    exact cons_ne_nil _ _
  | cons b data ih =>
    rw [splitLines]
    split
    · exact cons_ne_nil _ _
    · exact ih (by simp)

theorem ends_cons {b} (inside : b = newline → data ≠ []) :
    (b :: data).getLast? = some newline ↔ data.getLast? = some newline := by
  cases data with
  | nil =>
    have plain : b ≠ newline := fun same => inside same rfl
    simp [plain]
  | cons c data => rw [getLast?_cons_cons]

theorem splitOn_newline (data : Bytes) : (newline :: data).splitOn newline = [] :: data.splitOn newline := by
  rw [List.splitOn, splitOnP_cons_eq_if_modifyHead, if_pos (beq_self_eq_true newline)]
  rfl

theorem splitOn_plain {b} (plain : b ≠ newline) (data : Bytes) :
    (b :: data).splitOn newline = (data.splitOn newline).modifyHead (b :: ·) := by
  rw [List.splitOn, splitOnP_cons_eq_if_modifyHead, if_neg (by simpa using plain)]
  rfl

theorem modifyHead_nothing (lines : List Line) : lines.modifyHead (([] : Line) ++ ·) = lines := by
  cases lines <;> rfl

theorem splitLines_eq (nonempty : pending ++ data ≠ []) : splitLines pending data =
      if data.getLast? = some newline then ((data.splitOn newline).modifyHead (pending ++ ·)).dropLast
      else (data.splitOn newline).modifyHead (pending ++ ·) := by
  induction data generalizing pending with
  | nil =>
    rw [append_nil] at nonempty
    simp [splitLines, nonempty]
  | cons b data ih =>
    rw [splitLines]
    split
    · rename_i here
      subst here
      rw [splitOn_newline, modifyHead_cons, append_nil]
      by_cases empty : data = []
      · subst empty
        rfl
      · have some : data.splitOn newline ≠ [] := splitOnP_ne_nil _ _
        rw [ih (by simpa using empty), modifyHead_nothing, dropLast_cons_of_ne_nil some]
        simp only [ends_cons fun _ => empty]
        split <;> rfl
    · rename_i plain
      have front : (fun l : Line => pending ++ [b] ++ l) = (pending ++ ·) ∘ (b :: ·) := by
        funext l
        exact append_assoc pending [b] l
      rw [splitOn_plain plain, modifyHead_modifyHead, ih (by simp), front]
      simp only [ends_cons fun same => absurd same plain]

theorem textLoad_lines (t : Text) (file : Bytes) : (t.textLoad file).lines = fileLines file := by
  have lines : (t.textLoad file).lines = if (splitLines [] file).isEmpty then [[]] else splitLines [] file := rfl
  rw [lines]
  by_cases empty : file = []
  · subst empty
    rfl
  · have nonempty : ([] : Line) ++ file ≠ [] := empty
    rw [if_neg (by simpa using splitLines_ne_nil nonempty), splitLines_eq nonempty, fileLines]
    rw [modifyHead_nothing]

theorem writeLines_eq (finalNewline : Bool) (nonempty : lines ≠ []) :
    writeLines finalNewline lines = fileOf finalNewline lines := by
  induction lines with
  | nil => exact absurd rfl nonempty
  | cons line rest ih =>
    cases rest with
    | nil => simp [writeLines, fileOf]
    | cons next rest =>
      rw [writeLines, ih (cons_ne_nil _ _), if_pos (.inl (by simp)), fileOf, fileOf,
        intercalate_cons_cons]
      simp only [append_assoc]

theorem writeLines_splitLines (nonempty : pending ++ data ≠ []) :
    writeLines (data.getLast? = some newline) (splitLines pending data) = pending ++ data := by
  induction data generalizing pending with
  | nil =>
    rw [append_nil] at nonempty
    simp [splitLines, nonempty, writeLines]
  | cons b data ih =>
    rw [splitLines]
    split
    · rename_i here
      subst here
      by_cases empty : data = []
      · subst empty
        simp [splitLines, writeLines]
      · have more : ([] : Line) ++ data ≠ [] := empty
        have later : 0 < (splitLines [] data).length := length_pos_of_ne_nil (splitLines_ne_nil more)
        simp only [writeLines, ends_cons fun _ => empty, ih more, later, true_or, if_true]
        exact append_assoc _ _ _
    · rename_i plain
      simp only [ends_cons fun same => absurd same plain, ih (show pending ++ [b] ++ data ≠ [] by simp)]
      exact append_assoc _ _ _

/-- The primitive acts inside the text. -/
def InBounds (t : Text) : Eop → Prop
  | .insert line col _ | .delete line col _ | .split line col => line < t.lines.length ∧ col ≤ t.textLineLen line
  | .join line => line + 1 < t.lines.length

instance decidableInBounds (t : Text) (op : Eop) : Decidable (InBounds t op) := by
  cases op <;> unfold InBounds <;> infer_instance

def Text.perform (t : Text) (op : Eop) : Text := t.step op.call

theorem inside_of_bounds {line col} (bounds : line < t.lines.length ∧ col ≤ t.textLineLen line) :
    t.outside line col = false := by
  obtain ⟨below, within⟩ := bounds
  rw [Text.textLineLen, getElem?_eq_getElem below, Option.getD_some] at within
  rw [Text.outside, getElem?_eq_getElem below]
  exact decide_eq_false (Nat.not_lt.mpr within)

section EditLines

variable (before after : List Line) (l : Line)

theorem editLines_insert (col : Nat) (bytes : Bytes) : editLines (before ++ l :: after) (.insert before.length col bytes) =
      before ++ (l.take col ++ bytes ++ l.drop col) :: after := modify_middle before l after _

theorem editLines_delete (col n : Nat) :
    editLines (before ++ l :: after) (.delete before.length col n) = before ++ (l.take col ++ l.drop (col + n)) :: after :=
  modify_middle before l after _

theorem editLines_split (col : Nat) :
    editLines (before ++ l :: after) (.split before.length col) = before ++ l.take col :: l.drop col :: after := by
  have rest : (before ++ l :: after).drop (before.length + 1) = after := by
    rw [← drop_drop, drop_left]
    rfl
  rw [editLines, take_left, drop_left, rest]
  simp

theorem editLines_join (next : Line) :
    editLines (before ++ l :: next :: after) (.join before.length) = before ++ (l ++ next) :: after := by
  have rest : (before ++ l :: next :: after).drop (before.length + 2) = after := by
    rw [← drop_drop, drop_left]
    rfl
  rw [editLines, take_left, drop_left, rest]
  simp

theorem editLines_ne_nil {lines} (nonempty : lines ≠ []) (op : Eop) : editLines lines op ≠ [] := by
  cases op with
  | insert line col bytes | delete line col n =>
    rw [← length_pos_iff_ne_nil] at nonempty ⊢
    rwa [editLines, length_modify]
  | split line col =>
    rw [editLines]
    cases rest : lines.drop line with
    | nil =>
      have whole := take_append_drop line lines
      rw [rest, append_nil] at whole
      rw [whole]
      simp [nonempty]
    | cons l after => simp
  | join line => simp [editLines]

theorem drop_clamped {l : Line} {col n : Nat} (within : col ≤ l.length) :
    l.drop (col + min n (l.length - col)) = l.drop (col + n) := by
  rcases Nat.le_total n (l.length - col) with fits | long
  · rw [min_eq_left fits]
  · rw [min_eq_right long, drop_of_length_le (by omega), drop_of_length_le (by omega)]

end EditLines

theorem perform_lines {op} (bounds : InBounds t op) :
    (t.perform op).lines = editLines t.lines op ∧ (t.perform op).finalNewline = t.finalNewline := by
  cases op with
  | insert line col bytes =>
    have inside := inside_of_bounds bounds
    obtain ⟨before, l, after, lines, rfl, within, -⟩ := split_of_inside inside
    rw [Text.perform, Eop.call, Text.step, Text.textInsert, inside, lines, editLines_insert]
    rw [if_neg Bool.false_ne_true]
    split
    · rename_i none
      rw [length_eq_zero_iff.mp none, append_nil, take_append_drop]
      exact ⟨lines, rfl⟩
    · rw [edit_eq (by rw [lines]; exact applyOp_insert within bytes)]
      exact ⟨rfl, rfl⟩
  | delete line col n =>
    have inside := inside_of_bounds bounds
    obtain ⟨before, l, after, lines, rfl, within, length⟩ := split_of_inside inside
    rw [Text.perform, Eop.call, Text.step, Text.textDelete, inside, lines, editLines_delete, length]
    rw [if_neg Bool.false_ne_true]
    split
    · rename_i none
      refine ⟨?_, rfl⟩
      rcases none with rfl | rfl
      · rw [Nat.add_zero, take_append_drop]
        exact lines
      · rw [take_length, drop_of_length_le (Nat.le_add_right _ _), append_nil]
        exact lines
    · rw [edit_eq (applyOp_delete within n), drop_clamped within]
      exact ⟨rfl, rfl⟩
  | split line col =>
    have inside := inside_of_bounds bounds
    obtain ⟨before, l, after, lines, rfl, within, -⟩ := split_of_inside inside
    rw [Text.perform, Eop.call, Text.step, Text.textSplit, inside, lines, editLines_split, if_neg Bool.false_ne_true]
    rw [edit_eq (applyOp_split within)]
    exact ⟨rfl, rfl⟩
  | join line =>
    have below : line + 1 < t.lines.length := bounds
    have passes : ¬ (line + 1) % (sizeMax + 1) ≥ t.lines.length := by
      have := Nat.mod_le (line + 1) (sizeMax + 1)
      omega
    obtain ⟨before, rest, lines, rfl⟩ := split_of_getElem? (getElem?_eq_getElem (Nat.lt_of_succ_lt below))
    obtain ⟨next, after, rfl⟩ : ∃ next after, rest = next :: after := by
      apply exists_cons_of_length_pos
      rw [lines, length_append, length_cons] at below
      omega
    rw [Text.perform, Eop.call, Text.step, Text.textJoin, if_neg passes, if_neg (by omega), lines, editLines_join,
      edit_eq (applyOp_join next)]
    exact ⟨rfl, rfl⟩

structure Holds (lines : List Line) (finalNewline : Bool) (t : Text) : Prop where
  lines : t.lines = lines
  nonempty : t.lines ≠ []
  finalNewline : t.finalNewline = finalNewline

theorem Holds.perform {op} (holds : Holds lines finalNewline t) (bounds : InBounds t op) :
    Holds (editLines lines op) finalNewline (t.perform op) := by
  obtain ⟨edited, kept⟩ := perform_lines bounds
  refine ⟨by rw [edited, holds.lines], ?_, kept.trans holds.finalNewline⟩
  rw [edited]
  exact editLines_ne_nil holds.nonempty op

theorem Holds.run {edits} (holds : Holds lines finalNewline t) (bounds : Along Text.perform InBounds t edits) :
    Holds (edits.foldl editLines lines) finalNewline (edits.foldl Text.perform t) := by
  induction edits generalizing lines t with
  | nil => exact holds
  | cons op edits ih => exact ih (holds.perform bounds.1) bounds.2

theorem Holds.saved (holds : Holds lines finalNewline t) : t.textSave.1 = fileOf finalNewline lines := by
  rw [Text.textSave, writeLines_eq _ holds.nonempty, holds.lines, holds.finalNewline]

theorem textLoad_holds (t : Text) (file : Bytes) :
    Holds (fileLines file) (file.getLast? = some newline) (t.textLoad file) := by
  refine ⟨textLoad_lines t file, ?_, rfl⟩
  rw [Text.textLoad]
  split
  · exact cons_ne_nil _ _
  · rename_i some
    simpa using some

theorem textLoad_textSave (t : Text) (file : Bytes) : (t.textLoad file).textSave.1 = file := by
  by_cases empty : file = []
  · subst empty
    rfl
  · have nonempty : ([] : Line) ++ file ≠ [] := empty
    have lines : (t.textLoad file).lines = splitLines [] file :=
      if_neg (by simpa using splitLines_ne_nil nonempty)
    rw [Text.textSave, lines]
    exact writeLines_splitLines nonempty

/-- **Files survive the editor**: loaded and saved, a file is the same, byte for byte; edited in between, it is
the file of its edited lines, with a final newline exactly when it had one. -/
theorem files_survive (t : Text) (file : Bytes) : (t.textLoad file).textSave.1 = file ∧
      ∀ edits, Along Text.perform InBounds (t.textLoad file) edits →
        (edits.foldl Text.perform (t.textLoad file)).textSave.1 =
          fileOf (file.getLast? = some newline) (edits.foldl editLines (fileLines file)) :=
  ⟨textLoad_textSave t file, fun _ bounds => ((textLoad_holds t file).run bounds).saved⟩

def sampleEdits : List Eop := [.insert 0 1 [121], .split 0 1, .delete 2 0 9, .join 1]

theorem sample_survives : Along Text.perform InBounds (textNew.textLoad [120, 0, 10, 13]) sampleEdits ∧
      (sampleEdits.foldl Text.perform (textNew.textLoad [120, 0, 10, 13])).textSave.1 =
        fileOf false (sampleEdits.foldl editLines (fileLines [120, 0, 10, 13])) := by
  have bounds : Along Text.perform InBounds (textNew.textLoad [120, 0, 10, 13]) sampleEdits := by decide +kernel
  exact ⟨bounds, (files_survive textNew [120, 0, 10, 13]).2 sampleEdits bounds⟩

end Lumimux.Libtext
