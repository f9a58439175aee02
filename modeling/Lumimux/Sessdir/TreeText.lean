import Lumimux.Sessdir.StateText

/-!
# A saved screen layout is read back

The tree is printed in preorder and parsed back (`treeParse_serialize`); the lines around it are entries the loader
looks up.
-/

namespace Lumimux.Sessdir
open Lib List

def IsInt (n : Int) : Prop := -2147483648 ≤ n ∧ n < 2147483648
  deriving Decidable

variable {n : Int} {b : UInt8} {tree : LayoutTree}

theorem longToInt_of_isInt (int : IsInt n) : longToInt n = n := by
  obtain ⟨low, high⟩ := int
  simp only [longToInt, Int.bmod_def]
  split <;> omega

theorem scanSigned_printInt (int : IsInt n) {rest} (ends : EndsAt isDigit rest) :
    scanSigned (printInt n ++ rest) = some (n, rest) := by
  obtain ⟨low, high⟩ := int
  unfold printInt
  split
  · rename_i negative
    rw [scanSigned_minus (by omega) ends]
    simp only [Option.some.injEq, Prod.mk.injEq, and_true]
    omega
  · rename_i positive
    rw [scanSigned_decimal (by omega) ends]
    simp only [Option.some.injEq, Prod.mk.injEq, and_true]
    omega

theorem printInt_mem (member : b ∈ printInt n) : isDigit b = true ∨ b = 45 := by
  unfold printInt at member
  split at member
  · rcases mem_cons.mp member with minus | digit
    · exact .inr minus
    · exact .inl (decimal_isDigit _ b digit)
  · exact .inl (decimal_isDigit _ b member)

theorem printInt_ne_nil (n : Int) : printInt n ≠ [] := by
  unfold printInt
  split
  · exact cons_ne_nil _ _
  · exact decimal_ne_nil _

theorem printInt_start (n : Int) : ∃ b more, printInt n = b :: more ∧ (isDigit b = true ∨ b = 45) := by
  obtain ⟨b, more, shape⟩ := exists_cons_of_ne_nil (printInt_ne_nil n)
  exact ⟨b, more, shape, printInt_mem (shape ▸ mem_cons_self)⟩

theorem number_byte (number : isDigit b = true ∨ b = 45) :
    b ≠ 0 ∧ b ≠ 32 ∧ b ≠ 118 ∧ b ≠ 104 ∧ b ≠ newline ∧ b ≠ 34 ∧ b ≠ 92 := by
  rcases number with digit | rfl
  · refine ⟨?_, ?_, ?_, ?_, ?_, ?_, ?_⟩ <;> (rintro rfl; exact absurd digit (by decide))
  · decide

/-- Numbers and positions are C integers. -/
def LayoutTree.Ints : LayoutTree → Prop
  | .leaf winNum => IsInt winNum
  | .split _ splitPos a b => IsInt splitPos ∧ a.Ints ∧ b.Ints

theorem treeParse_blank (n : Nat) (text : Bytes) : treeParse n (32 :: text) = treeParse n text := by
  cases n with
  | zero => rfl
  | succ n => rfl

theorem endsAt_blank_digit (rest : Bytes) : EndsAt isDigit (32 :: rest) := by
  intro b more same
  obtain ⟨rfl, -⟩ := List.cons.inj same
  decide

theorem treeParse_serialize (ints : tree.Ints) {n} (deep : (treeSerialize tree).length ≤ n) {rest}
    (ends : EndsAt isDigit rest) : treeParse n (treeSerialize tree ++ rest) = some (tree, rest) := by
  induction tree generalizing n rest with
  | leaf winNum =>
    obtain ⟨b, more, shape, number⟩ := printInt_start winNum
    obtain ⟨-, notBlank, notV, notH, -⟩ := number_byte number
    have scanned := scanSigned_printInt ints ends
    simp only [treeSerialize, shape, length_cons] at deep scanned ⊢
    obtain ⟨n, rfl⟩ := Nat.exists_eq_succ_of_ne_zero (n := n) (by omega)
    simp only [cons_append] at scanned
    simp only [treeParse, cons_append]
    rw [dropWhile_cons_of_neg (by simpa using notBlank)]
    simp only [notV, notH, or_self, if_false, scanned, Option.map_some, longToInt_of_isInt ints]
  | split vertical splitPos a b iha ihb =>
    obtain ⟨int, intsA, intsB⟩ := ints
    simp only [treeSerialize, length_cons, length_append] at deep
    obtain ⟨n, rfl⟩ := Nat.exists_eq_succ_of_ne_zero (n := n) (by omega)
    have position := scanSigned_printInt int
      (endsAt_blank_digit (treeSerialize a ++ 32 :: (treeSerialize b ++ rest)))
    have first := iha intsA (n := n) (by omega) (endsAt_blank_digit (treeSerialize b ++ rest))
    have second := ihb intsB (n := n) (by omega) ends
    have shape : treeSerialize (.split vertical splitPos a b) ++ rest =
        (if vertical then 118 else 104) ::
          (printInt splitPos ++ 32 :: (treeSerialize a ++ 32 :: (treeSerialize b ++ rest))) := by
      simp [treeSerialize]
    rw [shape, treeParse]
    cases vertical with
    | true =>
      rw [dropWhile_cons_of_neg (by decide)]
      simp only [if_true, true_or, position, Option.bind_eq_bind, Option.bind_some, treeParse_blank, first, second,
        longToInt_of_isInt int, decide_true]
      rfl
    | false =>
      rw [dropWhile_cons_of_neg (by decide)]
      simp only [Bool.false_eq_true, if_false, or_true, if_true, position, Option.bind_eq_bind, Option.bind_some,
        treeParse_blank, first, second, longToInt_of_isInt int]
      rfl

theorem treeSerialize_mem (member : b ∈ treeSerialize tree) : (isDigit b = true ∨ b = 45) ∨ b = 32 ∨ b = 118 ∨ b = 104 := by
  induction tree with
  | leaf winNum => exact .inl (printInt_mem member)
  | split vertical splitPos x y ihx ihy =>
    simp only [treeSerialize, mem_cons, mem_append] at member
    rcases member with letter | number | blank | inX | blank | inY
    · cases vertical with
      | true => exact .inr (.inr (.inl letter))
      | false => exact .inr (.inr (.inr letter))
    · exact .inl (printInt_mem number)
    · exact .inr (.inl blank)
    · exact ihx inX
    · exact .inr (.inl blank)
    · exact ihy inY

theorem treeSerialize_plain (member : b ∈ treeSerialize tree) : b ≠ 0 ∧ b ≠ newline ∧ b ≠ 34 ∧ b ≠ 92 := by
  rcases treeSerialize_mem member with number | rfl | rfl | rfl
  · obtain ⟨zero, -, -, -, line, quote, backslash⟩ := number_byte number
    exact ⟨zero, line, quote, backslash⟩
  all_goals decide

structure Reads (raw value : Bytes) : Prop where
  line : newline ∉ raw
  reads : ∀ rest, kvValue (raw ++ newline :: rest) = value

theorem reads_plain {value} (line : newline ∉ value) (unquoted : 34 ∉ value) (room : value.length ≤ 4095) :
    Reads value value :=
  ⟨line, kvValue_unquoted line (fun first => unquoted (mem_of_mem_head? first)) room⟩

theorem reads_quoted {value} (plain : ∀ b ∈ value, b ≠ newline ∧ b ≠ 34 ∧ b ≠ 92) (room : value.length ≤ 4095) :
    Reads (34 :: (value ++ [34])) value  where
  line := by
    simp only [mem_cons, mem_append, not_mem_nil, or_false, not_or]
    exact ⟨by decide, fun member => (plain _ member).1 rfl, by decide⟩
  reads := by
    intro rest
    have shape : 34 :: (value ++ [34]) ++ newline :: rest = 34 :: (value ++ 34 :: newline :: rest) := by simp
    rw [shape, kvValue_quoted (fun b member => (plain b member).2) room]

abbrev Line := Bytes × Bytes × Bytes

structure Line.Ok (l : Line) : Prop where
  named : PlainKey l.1
  read : Reads l.2.1 l.2.2

def linesText (lines : List Line) : Bytes := lines.flatMap fun l => kvText l.1 l.2.1

theorem kvParseLoop_lines {lines} (ok : ∀ l ∈ lines, l.Ok) {n} (enough : lines.length ≤ n) :
    kvParseLoop n (linesText lines) = lines.map fun l => (l.1, l.2.2) := by
  induction lines generalizing n with
  | nil => cases n <;> rfl
  | cons l lines ih =>
    have ⟨named, read⟩ := ok l mem_cons_self
    simp only [length_cons] at enough
    obtain ⟨n, rfl⟩ := Nat.exists_eq_succ_of_ne_zero (n := n) (by omega)
    have rest := ih (fun l member => ok l (mem_cons_of_mem _ member)) (n := n) (by omega)
    rw [linesText] at rest ⊢
    rw [flatMap_cons, kvParseLoop_line named read.line, read.reads, rest, map_cons]

theorem length_lines (lines : List Line) : lines.length ≤ (linesText lines).length := by
  induction lines with
  | nil => exact Nat.zero_le _
  | cons l lines ih =>
    have line : 1 ≤ (kvText l.1 l.2.1).length := by
      simp only [kvText, length_append, length_cons]
      omega
    rw [linesText] at ih ⊢
    rw [flatMap_cons, length_append, length_cons]
    omega

theorem kvParse_lines {lines} (ok : ∀ l ∈ lines, l.Ok) (few : lines.length ≤ maxKv) :
    kvParse (linesText lines) = lines.map fun l => (l.1, l.2.2) := by
  rw [kvParse, kvParseLoop_lines ok (le_trans (length_lines lines) (Nat.le_succ _)),
    take_of_length_le (by simpa using few)]

theorem length_printInt_le (int : IsInt n) : (printInt n).length ≤ 11 := by
  obtain ⟨low, high⟩ := int
  have digits : (decimal n.natAbs).length ≤ 10 := length_decimal_le (by norm_num; omega) (by decide)
  unfold printInt
  split
  · simp only [length_cons]
    omega
  · omega

theorem reads_printInt (int : IsInt n) : Reads (printInt n) (printInt n) :=
  reads_plain (fun member => (number_byte (printInt_mem member)).2.2.2.2.1 rfl)
    (fun member => (number_byte (printInt_mem member)).2.2.2.2.2.1 rfl)
    (le_trans (length_printInt_le int) (by decide))

def layoutLines (mode : Bytes) (gen : UInt64) (focus : Int) (lines : List Line) : List Line :=
  [(ascii "MODE", mode, mode),
    (ascii "VERSION", decimal layoutVersion, decimal layoutVersion),
    (ascii "GEN", decimal gen.toNat, decimal gen.toNat)] ++
  ((if focus ≥ 0 then [(ascii "FOCUS", printInt focus, printInt focus)] else []) ++ lines)

structure SavedAs (mode : Bytes) (focus : Int) (lines : List Line) (kv : List (Bytes × Bytes)) : Prop where
  version : kvVersionOk kv = true
  mode : kvGet kv (ascii "MODE") = some mode
  focus : kvGet kv (ascii "FOCUS") = if focus ≥ 0 then some (printInt focus) else none
  others : ∀ key ∉ [ascii "MODE", ascii "VERSION", ascii "GEN", ascii "FOCUS"],
    kvGet kv key = kvGet (lines.map fun l => (l.1, l.2.2)) key

section Saved

variable {mode : Bytes} {focus : Int} {lines : List Line}

theorem linesText_layout (mode : Bytes) (gen : UInt64) (focus : Int) (lines : List Line) :
    linesText (layoutLines mode gen focus lines) = layoutHeader mode gen ++ (focusText focus ++ linesText lines) := by
  unfold layoutLines linesText layoutHeader focusText
  split <;> simp

theorem layoutLines_ok (gen : UInt64) (reads : Reads mode mode) (int : IsInt focus) (ok : ∀ l ∈ lines, l.Ok) :
    ∀ l ∈ layoutLines mode gen focus lines, l.Ok := by
  intro l member
  simp only [layoutLines, mem_append, mem_cons, not_mem_nil, or_false] at member
  rcases member with (rfl | rfl | rfl) | shown | inside
  · exact ⟨plainKey_mode, reads⟩
  · exact ⟨⟨⟨86, ascii "ERSION", rfl, by decide⟩, by decide, by decide⟩, reads_plain (by decide) (by decide) (by decide)⟩
  · have entry := plainEntry_gen gen
    exact ⟨entry.toPlainKey, entry.value_plain, kvValue_unquoted entry.value_plain entry.unquoted entry.room⟩
  · split at shown
    · obtain rfl := mem_singleton.mp shown
      exact ⟨plainKey_focus, reads_printInt int⟩
    · cases shown
  · exact ok l inside

theorem layoutLines_nonzero (gen : UInt64) (named : 0 ∉ mode) (nonzero : 0 ∉ linesText lines) :
    0 ∉ linesText (layoutLines mode gen focus lines) := by
  have fixed : (0 : UInt8) ∉ ascii "MODE" ∧ (0 : UInt8) ∉ ascii "VERSION" ∧ (0 : UInt8) ∉ decimal layoutVersion ∧
      (0 : UInt8) ∉ ascii "GEN" ∧ (0 : UInt8) ≠ 61 ∧ (0 : UInt8) ≠ newline ∧ (0 : UInt8) ∉ ascii "FOCUS" := by decide
  have digits := (decimal_plain gen.toNat).2
  have number : 0 ∉ printInt focus := fun member => (number_byte (printInt_mem member)).1 rfl
  intro member
  rw [linesText_layout, layoutHeader, focusText] at member
  split at member <;>
    simp only [kvText, mem_append, mem_cons, not_mem_nil, or_false, false_or] at member <;> tauto

theorem layoutRead_of_nonzero {text} (nonzero : 0 ∉ text) : layoutRead (some text) = some text := by
  have whole := @takeWhile_endsAt [] (fun b : UInt8 => b ≠ 0) text
    (fun b member => by
      simp only [ne_eq, decide_eq_true_eq]
      rintro rfl
      exact nonzero member) (endsAt_nil _)
  rw [append_nil] at whole
  rw [layoutRead, Option.map_some, whole.1]

theorem kvGet_cons_of_ne {key name value} (apart : name ≠ key) (kv : List (Bytes × Bytes)) :
    kvGet ((name, value) :: kv) key = kvGet kv key := by
  rw [kvGet, kvGet, find?_cons_of_neg (by simpa using apart)]

theorem kvGet_cons_self (key value : Bytes) (kv : List (Bytes × Bytes)) :
    kvGet ((key, value) :: kv) key = some value := by
  rw [kvGet, find?_cons_of_pos (by simp)]
  rfl

theorem kvGet_of_forall {kv key} (apart : ∀ entry ∈ kv, entry.1 ≠ key) : kvGet kv key = none := by
  rw [kvGet, List.find?_eq_none.mpr (by simpa using apart)]
  rfl

theorem kvParse_layoutLines (gen : UInt64) (reads : Reads mode mode) (int : IsInt focus) (ok : ∀ l ∈ lines, l.Ok)
    (few : lines.length + 4 ≤ maxKv) (apart : ∀ l ∈ lines, l.1 ≠ ascii "FOCUS") :
    SavedAs mode focus lines (kvParse (linesText (layoutLines mode gen focus lines))) := by
  have total : (layoutLines mode gen focus lines).length ≤ maxKv := by
    have shown : ∀ line : Line, (if focus ≥ 0 then [line] else []).length ≤ 1 := by
      intro line
      split <;> simp
    simp only [layoutLines, length_append, length_cons, length_nil]
    have := shown (ascii "FOCUS", printInt focus, printInt focus)
    omega
  rw [kvParse_lines (layoutLines_ok gen reads int ok) total]
  have modes : ascii "MODE" ≠ ascii "VERSION" ∧ ascii "MODE" ≠ ascii "FOCUS" := by decide
  have others : ascii "VERSION" ≠ ascii "FOCUS" ∧ ascii "GEN" ≠ ascii "FOCUS" := by decide
  have none : kvGet (lines.map fun l => (l.1, l.2.2)) (ascii "FOCUS") = none :=
    kvGet_of_forall (forall_mem_map.mpr apart)
  have version : kvGet ((layoutLines mode gen focus lines).map fun l => (l.1, l.2.2)) (ascii "VERSION") =
      some (decimal layoutVersion) := by
    simp only [layoutLines, cons_append, map_cons, kvGet_cons_of_ne modes.1, kvGet_cons_self]
  constructor
  case version =>
    rw [kvVersionOk, version]
    decide
  case mode => exact kvGet_cons_self ..
  case focus =>
    simp only [layoutLines, cons_append, nil_append, map_cons, kvGet_cons_of_ne modes.2,
      kvGet_cons_of_ne others.1, kvGet_cons_of_ne others.2]
    split
    · exact kvGet_cons_self ..
    · exact none
  case others =>
    intro key new
    simp only [mem_cons, not_mem_nil, or_false, not_or] at new
    obtain ⟨notMode, notVersion, notGen, notFocus⟩ := new
    simp only [layoutLines, cons_append, nil_append, map_cons, kvGet_cons_of_ne (Ne.symm notMode),
      kvGet_cons_of_ne (Ne.symm notVersion), kvGet_cons_of_ne (Ne.symm notGen)]
    split
    · exact kvGet_cons_of_ne (Ne.symm notFocus) _
    · rfl

theorem longToInt_printed {n} (int : IsInt n) : longToInt (((scanSigned (printInt n)).map (·.1)).getD 0) = n := by
  have number := scanSigned_printInt int (endsAt_nil isDigit)
  rw [append_nil] at number
  rw [number, Option.map_some, Option.getD_some, longToInt_of_isInt int]

end Saved

def treeLine (tree : LayoutTree) : Line := (ascii "TREE", 34 :: (treeSerialize tree ++ [34]), treeSerialize tree)

theorem screenText_eq (gen : UInt64) (layout : ScreenLayout) : screenText gen layout =
      linesText (layoutLines (ascii "screen") gen layout.focus (layout.root.toList.map treeLine)) := by
  rw [linesText_layout, screenText]
  cases layout.root <;> simp [linesText, treeLine, kvQuoted]

theorem treeLine_ok {layout : ScreenLayout} : ∀ l ∈ layout.root.toList.map treeLine, l.Ok := by
  intro l member
  obtain ⟨tree, root, rfl⟩ := mem_map.mp member
  have fits := layout.fits tree (Option.mem_toList.mp root)
  have named : PlainKey (ascii "TREE") := ⟨⟨84, ascii "REE", rfl, by decide⟩, by decide, by decide⟩
  exact ⟨named, reads_quoted (fun _ inside => (treeSerialize_plain inside).2) (by omega)⟩

theorem screenText_nonzero (gen : UInt64) (layout : ScreenLayout) : 0 ∉ screenText gen layout := by
  rw [screenText_eq]
  refine layoutLines_nonzero gen (by decide) fun member => ?_
  obtain ⟨l, line, inside⟩ := mem_flatMap.mp member
  obtain ⟨tree, -, rfl⟩ := mem_map.mp line
  have text : 0 ∉ treeSerialize tree := fun member => (treeSerialize_plain member).1 rfl
  have fixed : (0 : UInt8) ∉ ascii "TREE" ∧ (0 : UInt8) ≠ 61 ∧ (0 : UInt8) ≠ newline ∧ (0 : UInt8) ≠ 34 := by decide
  simp only [treeLine, kvText, mem_append, mem_cons, not_mem_nil, or_false] at inside
  tauto

theorem layoutLoadScreen_screenText (gen : UInt64) {layout : ScreenLayout} (int : IsInt layout.focus)
    (ints : ∀ tree, layout.root = some tree → tree.Ints) : layoutLoadScreen (some (screenText gen layout)) =
      layout.root.map fun tree => (if layout.focus ≥ 0 then layout.focus else -1, tree) := by
  have few : (layout.root.toList.map treeLine).length + 4 ≤ maxKv := by cases layout.root <;> simp [maxKv]
  have apart : ∀ l ∈ layout.root.toList.map treeLine, l.1 ≠ ascii "FOCUS" := by
    intro l member
    obtain ⟨tree, -, rfl⟩ := mem_map.mp member
    exact (by decide : ascii "TREE" ≠ ascii "FOCUS")
  have saved := kvParse_layoutLines gen (reads_plain (by decide) (by decide) (by decide) : Reads (ascii "screen") _) int
    treeLine_ok few apart
  rw [← screenText_eq] at saved
  have tree := saved.others (ascii "TREE") (by decide)
  simp only [layoutLoadScreen, layoutRead_of_nonzero (screenText_nonzero gen layout), saved.version, saved.mode, saved.focus,
    tree, Option.bind_eq_bind, Option.bind_some, and_self, if_true]
  cases root : layout.root with
  | none => rfl
  | some t =>
    have printed := treeParse_serialize (ints t root) (Nat.le_succ _) (endsAt_nil isDigit)
    rw [append_nil] at printed
    have found : kvGet (((some t).toList.map treeLine).map fun l => (l.1, l.2.2)) (ascii "TREE") = some (treeSerialize t) :=
      kvGet_cons_self ..
    simp only [found, Option.bind_some, printed]
    by_cases shown : layout.focus ≥ 0
    · simp only [if_pos shown, longToInt_printed int]
      rfl
    · simp only [if_neg shown]
      rfl

end Lumimux.Sessdir
