import Lumimux.Lib.Publish
import Lumimux.Sessdir.Control
import Lumimux.Sessdir.Layout

/-!
# Concurrent saves of the layout (`libsessdir/sessdir_layout.c`)

A save writes the next generation to `layout.new` and renames it; only saves that do not overlap raise the generation.
-/

namespace Lumimux.Sessdir
open Lib List

inductive SaveRequest where
  | turbo (layout : TurboLayout)
  | screen (layout : ScreenLayout)

def saveText (gen : UInt64) : SaveRequest → Bytes
  | .turbo layout => turboText gen layout
  | .screen layout => screenText gen layout

def composeSave (file : Option Bytes) (r : SaveRequest) : Bytes := saveText (layoutGeneration file + 1) r

/-- The next generation is a 64-bit number. -/
def GenLeft (file : Option Bytes) : Prop := (layoutGeneration file).toNat + 1 < 2 ^ 64
  deriving Decidable

/-- The name is read back: it is neither a comment nor longer than its buffer, and ends at the `=`. -/
structure PlainKey (key : Bytes) : Prop where
  start : ∃ b rest, key = b :: rest ∧ b ≠ newline ∧ b ≠ 13 ∧ b ≠ 35 ∧ b ≠ 59
  short : key.length < 256
  plain : 61 ∉ key ∧ newline ∉ key

/-- The value is read back too: it ends with the line, is not quoted and fits its buffer. -/
structure PlainEntry (key value : Bytes) : Prop extends PlainKey key where
  value_plain : newline ∉ value
  unquoted : value.head? ≠ some 34
  room : value.length ≤ 4095

theorem takeWhile_before {mark text} (plain : mark ∉ text) (rest : Bytes) :
    (text ++ mark :: rest).takeWhile (· ≠ mark) = text := by
  rw [takeWhile_append_of_pos, takeWhile_cons_of_neg (by simp), append_nil]
  intro b member
  simp only [ne_eq, decide_eq_true_eq]
  rintro rfl
  exact plain member

theorem drop_key (key tail : Bytes) : (key ++ 61 :: tail).drop (key.length + 1) = tail := by
  rw [drop_append, drop_of_length_le (by omega)]
  simp

theorem next_line {text} (plain : newline ∉ text) (rest : Bytes) :
    ((text ++ newline :: rest).dropWhile (· ≠ newline)).drop 1 = rest := by
  rw [dropWhile_append_of_pos, dropWhile_cons_of_neg (by simp)]
  · rfl
  · intro b member
    simp only [ne_eq, decide_eq_true_eq]
    rintro rfl
    exact plain member

variable {value key : Bytes}

theorem kvValue_unquoted (line : newline ∉ value) (unquoted : value.head? ≠ some 34)
    (room : value.length ≤ 4095) (rest : Bytes) : kvValue (value ++ newline :: rest) = value := by
  unfold kvValue
  split
  · rename_i more same
    cases value with
    | nil => exact absurd (List.cons.inj same).1 (by decide)
    | cons b value =>
      rw [cons_append] at same
      exact absurd (congrArg some (List.cons.inj same).1) unquoted
  · rw [takeWhile_before line, take_of_length_le room]

theorem PlainKey.starts (named : PlainKey key) (value rest : Bytes) :
    (kvText key value ++ rest).dropWhile (fun b => b = newline ∨ b = 13) = key ++ 61 :: (value ++ newline :: rest) := by
  obtain ⟨b, more, rfl, notLine, notReturn, -⟩ := named.start
  simp [kvText, notLine, notReturn]

theorem kvParseCb_line (named : PlainKey key) (value rest : Bytes) :
    kvParseCb (kvText key value ++ rest) = some (key, kvValue (value ++ newline :: rest)) := by
  unfold kvParseCb
  simp only [named.starts, takeWhile_before named.plain.1, drop_key]
  obtain ⟨b, more, rfl, -, -, notHash, notSemi⟩ := named.start
  rw [if_neg (by simp [notHash, notSemi]), if_neg (by simpa using named.plain.2), if_neg]
  have short := named.short
  simp only [length_cons] at short ⊢
  simp
  omega

theorem next_of_kvText (named : PlainKey key) (line : newline ∉ value) (rest : Bytes) :
    ((kvText key value ++ rest).dropWhile (· ≠ newline)).drop 1 = rest := by
  have shape : kvText key value ++ rest = (key ++ 61 :: value) ++ newline :: rest := by simp [kvText]
  have plain : newline ∉ key ++ 61 :: value := by
    simp only [mem_append, mem_cons, not_or]
    exact ⟨named.plain.2, by decide, line⟩
  rw [shape, next_line plain]

theorem kvParseLoop_line (named : PlainKey key) (line : newline ∉ value) (n : Nat) (rest : Bytes) :
    kvParseLoop (n + 1) (kvText key value ++ rest) = (key, kvValue (value ++ newline :: rest)) :: kvParseLoop n rest := by
  rw [kvParseLoop, if_neg (by simp [kvText]), kvParseCb_line named, next_of_kvText named line]
  rfl

theorem kvParseLoop_plain (h : PlainEntry key value) (n : Nat) (rest : Bytes) :
    kvParseLoop (n + 1) (kvText key value ++ rest) = (key, value) :: kvParseLoop n rest := by
  rw [kvParseLoop_line h.toPlainKey h.value_plain, kvValue_unquoted h.value_plain h.unquoted h.room]

theorem plainEntry_gen (gen : UInt64) : PlainEntry (ascii "GEN") (decimal gen.toNat) where
  start := ⟨71, ascii "EN", rfl, by decide⟩
  short := by decide
  plain := by decide
  value_plain := (decimal_plain gen.toNat).1
  unquoted := by
    intro first
    obtain ⟨d, small, quote⟩ := decimal_digits gen.toNat 34 (mem_of_mem_head? first)
    have apart : ∀ d < 10, digitByte d ≠ 34 := by decide
    exact apart d small quote.symm
  room := le_trans (length_decimal_uint64 gen) (by decide)

theorem layoutGeneration_header {mode} (plain : PlainEntry (ascii "MODE") mode) (nonzero : 0 ∉ mode) (gen : UInt64)
    (rest : Bytes) : layoutGeneration (some (layoutHeader mode gen ++ rest)) = gen := by
  have version : PlainEntry (ascii "VERSION") (decimal layoutVersion) :=
    ⟨⟨⟨86, ascii "ERSION", rfl, by decide⟩, by decide, by decide⟩, by decide, by decide, by decide⟩
  have whole : ∀ b ∈ layoutHeader mode gen, b ≠ 0 := by
    rintro b member rfl
    have fixed : (0 : UInt8) ∉ ascii "MODE" ∧ (0 : UInt8) ∉ ascii "VERSION" ∧ (0 : UInt8) ∉ decimal layoutVersion ∧
        (0 : UInt8) ∉ ascii "GEN" ∧ (0 : UInt8) ≠ 61 ∧ (0 : UInt8) ≠ newline := by decide
    have digits := (decimal_plain gen.toNat).2
    simp only [layoutHeader, kvText, mem_append, mem_cons, not_mem_nil, or_false] at member
    tauto
  have data : (layoutHeader mode gen ++ rest).takeWhile (· ≠ 0) = layoutHeader mode gen ++ rest.takeWhile (· ≠ 0) :=
    takeWhile_append_of_pos (by simpa using whole)
  generalize rest.takeWhile (· ≠ 0) = tail at data
  obtain ⟨n, enough⟩ : ∃ n, (layoutHeader mode gen ++ tail).length + 1 = n + 1 + 1 + 1 := by
    refine ⟨(layoutHeader mode gen ++ tail).length - 2, ?_⟩
    have long : 3 ≤ (layoutHeader mode gen).length := by
      simp only [layoutHeader, kvText, length_append, length_cons]
      omega
    rw [length_append]
    omega
  have parsed : kvParseLoop (n + 1 + 1 + 1) (layoutHeader mode gen ++ tail) =
      (ascii "MODE", mode) :: (ascii "VERSION", decimal layoutVersion) :: (ascii "GEN", decimal gen.toNat) ::
        kvParseLoop n tail := by
    rw [layoutHeader, append_assoc, append_assoc, kvParseLoop_plain plain, kvParseLoop_plain version,
      kvParseLoop_plain (plainEntry_gen gen)]
  have found : kvGet (kvParse (layoutHeader mode gen ++ tail)) (ascii "GEN") = some (decimal gen.toNat) := by
    have names : ascii "MODE" ≠ ascii "GEN" ∧ ascii "VERSION" ≠ ascii "GEN" := by decide
    rw [kvParse, enough, parsed, maxKv, take_succ_cons, take_succ_cons, take_succ_cons, kvGet,
      find?_cons_of_neg (by simpa using names.1), find?_cons_of_neg (by simpa using names.2),
      find?_cons_of_pos (by simp)]
    rfl
  have scanned := scanUnsigned_decimal gen (endsAt_nil isDigit)
  rw [append_nil] at scanned
  simp only [layoutGeneration, layoutRead, Option.map_some, data, found, scanned, Option.getD_some]

theorem plainKey_mode : PlainKey (ascii "MODE") := ⟨⟨77, ascii "ODE", rfl, by decide⟩, by decide, by decide⟩

theorem layoutGeneration_saveText (gen : UInt64) (r : SaveRequest) : layoutGeneration (some (saveText gen r)) = gen := by
  cases r with
  | turbo | screen =>
    exact layoutGeneration_header ⟨plainKey_mode, by decide, by decide, by decide⟩ (by decide) gen _

theorem layoutGeneration_lt (file : Option Bytes) (r : SaveRequest) (left : GenLeft file) :
    layoutGeneration file < layoutGeneration (some (composeSave file r)) := by
  rw [UInt64.lt_iff_toNat_lt, composeSave, layoutGeneration_saveText, UInt64.toNat_add, UInt64.toNat_one, Nat.mod_eq_of_lt left]
  exact Nat.lt_succ_self _

section Saves

variable {ω : Type} [DecidableEq ω]

/-- **Generations rise** in every interleaving in which a save starts only when no other is under way and the
generations are not used up. -/
theorem run_generations_rise (file leftover : Option Bytes) (steps : List (PublishStep ω SaveRequest))
    (alone : Along (Publisher.step composeSave) (Publisher.StartsAlone GenLeft) (.start file leftover) steps) :
    let s := (Publisher.start file leftover).run composeSave steps
    (∀ text ∈ s.shown, ∃ gen r, text = saveText gen r) ∧
      (layoutGeneration file :: s.shown.map fun text => layoutGeneration (some text)).Pairwise (· < ·) ∧
      ∀ earlier later, steps = earlier ++ later →
        ((Publisher.start file leftover).run composeSave earlier).shown.length < s.shown.length →
        layoutGeneration ((Publisher.start file leftover).run composeSave earlier).visible <
          layoutGeneration s.visible := by
  intro s
  have init := Publisher.Serial.init (ω := ω) composeSave GenLeft file leftover
  have log := (init.run alone).log
  refine ⟨?_, ?_, ?_⟩
  · intro text member
    obtain ⟨file, r, rfl⟩ := log.composed member
    exact ⟨layoutGeneration file + 1, r, rfl⟩
  · exact (log.rises layoutGeneration layoutGeneration_lt).1
  · rintro earlier later rfl longer
    exact init.later layoutGeneration layoutGeneration_lt alone longer

end Saves

def wholeSave {ω : Type} (w : ω) (r : SaveRequest) : List (PublishStep ω SaveRequest) :=
  [.read w r, .openTemp w, .write w, .rename w]

def emptyTurbo : SaveRequest := .turbo ⟨-1, []⟩

theorem savedTwice_rises :
    (((Publisher.start none none).run composeSave (wholeSave true emptyTurbo ++ wholeSave false emptyTurbo)).shown.map
      fun text => layoutGeneration (some text)).Pairwise (· < ·) := by
  have rises := (run_generations_rise none none (wholeSave true emptyTurbo ++ wholeSave false emptyTurbo) ?_).2.1
  · exact (pairwise_cons.mp rises).2
  · refine ⟨⟨fun _ => rfl, by decide +kernel⟩, trivial, trivial, trivial, ⟨?_, by decide +kernel⟩, trivial, trivial,
      trivial, trivial⟩
    intro v
    cases v <;> rfl

theorem overlapping_saves_collide :
    let s := (Publisher.start none none).run composeSave
      [.read true emptyTurbo, .read false emptyTurbo, .openTemp true, .write true, .openTemp false, .rename true]
    s.shown = [[]] ∧ layoutGeneration s.visible = 0 := by
  decide +kernel

end Lumimux.Sessdir
