import Lumimux.Utf8.WidthTables

/-!
# Character width (`libutf8/rune_width.c`)

A codepoint is looked up in the table that `rune_width_init` selected. Results hold for every `WidthTable`.
-/

namespace Lumimux.Utf8
open List

/-- The binary search of `range_search`. -/
def rangeSearchLoop (table : List RuneRange) (cp : Nat) : Nat → Nat → Nat → Bool
  | 0, _, _ => false
  | fuel + 1, lo, hi =>
    if lo < hi then
      let mid := lo + (hi - lo) / 2
      let range := table.getD mid (0, 0)
      if cp > range.2 then rangeSearchLoop table cp fuel (mid + 1) hi
      else if cp < range.1 then rangeSearchLoop table cp fuel lo mid
      else true
    else false

def rangeSearch (table : List RuneRange) (cp : Nat) : Bool :=
  rangeSearchLoop table cp table.length 0 table.length

theorem rangeSearchLoop_sound {table : List RuneRange} {cp : Nat} (pos : 0 < cp) (fuel lo hi : Nat)
    (found : rangeSearchLoop table cp fuel lo hi = true) : ∃ range ∈ table, range.1 ≤ cp ∧ cp ≤ range.2 := by
  fun_induction rangeSearchLoop table cp fuel lo hi with
  | case1 => cases found
  | case2 _ _ _ _ _ _ _ ih => exact ih found
  | case3 _ _ _ _ _ _ _ _ ih => exact ih found
  | case4 fuel lo hi _ mid range below above =>
    refine ⟨range, ?_, by omega, by omega⟩
    cases inside : table[mid]? with
    | some read =>
      have same : range = read := by simp only [range, getD_eq_getElem?_getD, inside, Option.getD_some]
      rw [same]
      exact mem_of_getElem? inside
    | none =>
      -- past the end the pair read is (0, 0), which holds no character but NUL
      have outside : range = (0, 0) := by simp only [range, getD_eq_getElem?_getD, inside, Option.getD_none]
      rw [outside] at below
      omega
  | case5 => cases found

/-- A table `rune_width_init` can select. No range of a built-in table meets ASCII. -/
structure WidthTable where
  zero : List RuneRange
  wide : List RuneRange
  pastAscii : ∀ range ∈ zero ++ wide, 0x7F ≤ range.1

/-- The table selected when `UNICODE_VERSION` names no other one. -/
def latestTable : WidthTable := ⟨zero15, wide15, by decide +kernel⟩

/-- `rune_width`: -1 for control characters, else 0, 1 or 2 columns. -/
def runeWidth (current : WidthTable) (cp : Nat) : Int :=
  if cp = 0 then 0
  else if cp < 0x20 ∨ 0x7F ≤ cp ∧ cp < 0xA0 then -1
  else if rangeSearch current.zero cp then 0
  else if rangeSearch current.wide cp then 2
  else 1

theorem runeWidth_le_two (current : WidthTable) (cp : Nat) : runeWidth current cp ≤ 2 := by
  unfold runeWidth
  split_ifs <;> decide

theorem printable_of_runeWidth_pos {current cp} (h : 0 < runeWidth current cp) : 0x20 ≤ cp ∧ cp ≠ 0x7F := by
  unfold runeWidth at h
  split_ifs at h with zero control <;> omega

theorem rangeSearch_ascii {table : List RuneRange} (past : ∀ range ∈ table, 0x7F ≤ range.1) {cp} (low : 0x20 ≤ cp)
    (high : cp < 0x7F) : rangeSearch table cp = false := by
  by_contra found
  have pos : 0 < cp := by omega
  obtain ⟨range, mem, first, -⟩ := rangeSearchLoop_sound pos _ _ _ (Bool.eq_true_of_not_eq_false found)
  have := past range mem
  omega

theorem runeWidth_ascii (w : WidthTable) {cp} (low : 0x20 ≤ cp) (high : cp < 0x7F) : runeWidth w cp = 1 := by
  have zero : rangeSearch w.zero cp = false :=
    rangeSearch_ascii (fun range mem => w.pastAscii range (mem_append_left _ mem)) low high
  have wide : rangeSearch w.wide cp = false :=
    rangeSearch_ascii (fun range mem => w.pastAscii range (mem_append_right _ mem)) low high
  simp only [runeWidth, zero, wide]
  rw [if_neg (by omega), if_neg (by omega)]
  rfl

end Lumimux.Utf8
