import Lumimux.Lib.Paired
import Lumimux.Vt.BufInvariant

/-!
# Wide characters in a row

A row is `Whole` when a cell is a continuation exactly if the cell before it is wide.
-/

namespace Lumimux.Vt
open Lib List

def widthAt (cells : List Cell) (k : Int) : Option Nat := if k < 0 then none else cells[k.toNat]?.map Cell.width

def Whole (cells : List Cell) : Prop := ∀ k, widthAt cells (k - 1) = some 2 ↔ widthAt cells k = some 0

/-- No wide character lies across column `k`. -/
def Clean (cells : List Cell) (k : Int) : Prop := widthAt cells k ≠ some 0
  deriving Decidable

theorem widthAt_natCast (cells : List Cell) (i : Nat) : widthAt cells i = cells[i]?.map Cell.width := by
  rw [widthAt, if_neg (by omega), Int.toNat_natCast]

variable {k : Int} {cells : List Cell}

theorem widthAt_of_neg (cells : List Cell) (neg : k < 0) : widthAt cells k = none := if_pos neg

theorem widthAt_of_length_le (past : cells.length ≤ k) : widthAt cells k = none := by
  rw [widthAt, if_neg (by omega), getElem?_eq_none (by omega)]
  rfl

theorem column_cases {P : Int → Prop} (left : ∀ k < 0, P k) (right : ∀ i : Nat, P i) (k : Int) : P k := by
  by_cases h : k < 0
  · exact left k h
  · obtain ⟨i, rfl⟩ := Int.eq_ofNat_of_zero_le (Int.not_lt.mp h)
    exact right i

section Edits

variable (r : Row)

theorem widthAt_eraseRange (start stop : Int) (bg : Color) (k : Int) : widthAt (r.eraseRange start stop bg).cells k =
      if start ≤ k ∧ k < stop then (widthAt r.cells k).map fun _ => 1 else widthAt r.cells k := by
  induction k using column_cases with
  | left k neg =>
    rw [widthAt_of_neg _ neg, widthAt_of_neg _ neg]
    split <;> rfl
  | right i =>
    rw [widthAt_natCast, widthAt_natCast, Row.eraseRange, getElem?_mapIdx, Option.map_map, Option.map_map]
    split
    · exact congrArg (Option.map · r.cells[i]?) (funext fun c => by simp [Cell.erase, Cell.clear])
    · exact congrArg (Option.map · r.cells[i]?) (funext fun c => by simp)

theorem widthAt_shiftRight {start} (low : 0 ≤ start) (count : Nat) (k : Int) :
    widthAt (r.shiftRight start count).cells k =
      if start + count ≤ k ∧ k < r.cells.length then widthAt r.cells (k - count) else widthAt r.cells k := by
  induction k using column_cases with
  | left k neg => rw [if_neg (by omega), widthAt_of_neg _ neg, widthAt_of_neg _ neg]
  | right i =>
    rw [widthAt_natCast, Row.shiftRight, getElem?_mapIdx]
    by_cases inside : i < r.cells.length
    · rw [getElem?_eq_getElem inside]
      by_cases moved : start + count ≤ i
      · have source : i - count < r.cells.length := by omega
        rw [if_pos ⟨moved, by omega⟩, show (i : Int) - count = (i - count : Nat) by omega, widthAt_natCast,
          getElem?_eq_getElem source]
        simp [moved, getD_eq_getElem?_getD, getElem?_eq_getElem source]
      · rw [if_neg (by omega), widthAt_natCast, getElem?_eq_getElem inside]
        simp [moved]
    · rw [if_neg (by omega), widthAt_natCast, getElem?_eq_none (by omega)]
      rfl

theorem widthAt_shiftLeft (start : Int) (count : Nat) (k : Int) : widthAt (r.shiftLeft start count).cells k =
      if 0 ≤ k ∧ start ≤ k ∧ k + count < r.cells.length then widthAt r.cells (k + count) else widthAt r.cells k := by
  induction k using column_cases with
  | left k neg => rw [if_neg (by omega), widthAt_of_neg _ neg, widthAt_of_neg _ neg]
  | right i =>
    rw [widthAt_natCast, Row.shiftLeft, getElem?_mapIdx]
    by_cases inside : i < r.cells.length
    · rw [getElem?_eq_getElem inside]
      by_cases moved : start ≤ i ∧ i + count < r.cells.length
      · rw [if_pos ⟨by omega, moved.1, by omega⟩, show (i : Int) + count = (i + count : Nat) by omega, widthAt_natCast,
          getElem?_eq_getElem moved.2]
        simp [moved, getD_eq_getElem?_getD]
      · rw [if_neg (by omega), widthAt_natCast, getElem?_eq_getElem inside]
        simp [moved]
    · rw [if_neg (by omega), widthAt_natCast, getElem?_eq_none (by omega)]
      rfl

theorem widthAt_setCell {col} (inside : col < r.cells.length) (c : Cell) (k : Int) :
    widthAt (r.setCell col c).cells k = if k = col then some c.width else widthAt r.cells k := by
  induction k using column_cases with
  | left k neg => rw [if_neg (by omega), widthAt_of_neg _ neg, widthAt_of_neg _ neg]
  | right i =>
    rw [widthAt_natCast, Row.setCell, getElem?_set, widthAt_natCast]
    by_cases same : col = i
    · subst same
      simp [inside]
    · rw [if_neg same, if_neg (by omega)]

theorem widthAt_rowResize {cols} (shape : RowOk cols r) (newCols : Nat) (k : Int) :
    widthAt (rowResize cols newCols r).cells k =
      if k < newCols then if k < cols then widthAt r.cells k else some 1 else none := by
  have length : r.cells.length = cols := shape
  induction k using column_cases with
  | left k neg => rw [if_pos (by omega), if_pos (by omega), widthAt_of_neg _ neg, widthAt_of_neg _ neg]
  | right i =>
    rw [widthAt_natCast, rowResize, getElem?_take, getElem?_append, getElem?_replicate, length]
    by_cases inside : i < newCols
    · rw [if_pos inside, if_pos (show (i : Int) < newCols by omega)]
      by_cases old : i < cols
      · rw [if_pos old, if_pos (show (i : Int) < cols by omega), widthAt_natCast]
      · rw [if_neg old, if_neg (show ¬ (i : Int) < cols by omega), if_pos (by omega)]
        rfl
    · rw [if_neg inside, if_neg (by omega)]
      rfl

end Edits

theorem Whole.paired (h : Whole cells) : Paired (· = some 2) (· = some 0) (widthAt cells) := h

theorem clean_of_length_le (past : cells.length ≤ k) : Clean cells k := by
  rw [Clean, widthAt_of_length_le past]
  simp

theorem whole_of_single (single : ∀ c ∈ cells, c.width = 1) : Whole cells := by
  have one : ∀ k n, widthAt cells k = some n → n = 1 := by
    intro k n found
    induction k using column_cases with
    | left k neg =>
      rw [widthAt_of_neg _ neg] at found
      cases found
    | right i =>
      rw [widthAt_natCast] at found
      obtain ⟨c, here, rfl⟩ := Option.map_eq_some_iff.mp found
      exact single c (mem_of_getElem? here)
  intro k
  refine iff_of_false (fun two => ?_) (fun zero => ?_)
  · cases one _ _ two
  · cases one _ _ zero

section Kept

variable {r : Row} (h : Whole r.cells)
include h

variable {start : Int} {count : Nat}

omit h in
theorem eraseRange_blank {stop k} (low : start ≤ k) (high : k < stop) (bg : Color) :
    ¬ widthAt (r.eraseRange start stop bg).cells k = some 2 ∧ ¬ widthAt (r.eraseRange start stop bg).cells k = some 0 := by
  rw [widthAt_eraseRange, if_pos ⟨low, high⟩]
  cases widthAt r.cells k <;> simp

theorem Whole.eraseRange {stop} (order : start ≤ stop) (left : Clean r.cells start) (right : Clean r.cells stop)
    (bg : Color) : Whole (r.eraseRange start stop bg).cells := by
  refine h.paired.blanked start stop order (fun k out => ?_) left right fun k low high => eraseRange_blank low high bg
  rw [widthAt_eraseRange, if_neg (by omega)]

theorem Whole.gapped {r' : Row} (gap : Int → Option Nat) (fits : start + count ≤ r.cells.length) (left : Clean r.cells start)
    (right : Clean r.cells (r.cells.length - count)) (length : r'.cells.length = r.cells.length)
    (before : ∀ k < start, widthAt r'.cells k = widthAt r.cells k)
    (within : ∀ k, start ≤ k → k < start + count → widthAt r'.cells k = gap k)
    (after : ∀ k, start + count ≤ k → k < r.cells.length → widthAt r'.cells k = widthAt r.cells (k - count))
    (inside : ∀ k, start < k → k < start + count → (gap (k - 1) = some 2 ↔ gap k = some 0))
    (first : 0 < count → gap start ≠ some 0) (last : 0 < count → gap (start + count - 1) ≠ some 2) : Whole r'.cells := by
  -- on a row without end nothing is lost; then the row is cut at its length
  let endless (k : Int) : Option Nat :=
    if k < start then widthAt r.cells k else if k < start + count then gap k else widthAt r.cells (k - count)
  have near : ∀ k < start, endless k = widthAt r.cells k := fun k low => if_pos low
  have middle : ∀ k, start ≤ k → k < start + count → endless k = gap k := fun k low high => by
    simp only [endless]
    rw [if_neg (by omega), if_pos high]
  have far : ∀ k, start + count ≤ k → endless k = widthAt r.cells (k - count) := fun k high => by
    simp only [endless]
    rw [if_neg (by omega), if_neg (by omega)]
  have spliced : Paired (· = some 2) (· = some 0) endless := by
    refine h.paired.splice start (start + count) count (by omega) near far left ?_ (fun k low high => ?_)
      (fun some => ?_) (fun some => ?_)
    · rw [Int.add_sub_cancel]
      exact left
    · rw [middle (k - 1) (by omega) (by omega), middle k (by omega) high]
      exact inside k low high
    · rw [middle start (Int.le_refl _) some]
      exact first (by omega)
    · rw [middle (start + count - 1) (by omega) (by omega)]
      exact last (by omega)
  refine spliced.cut r.cells.length none (by simp) (by simp) ?_ (fun k short => ?_) (fun k past => ?_)
  · rw [far _ fits]
    exact right
  · by_cases low : k < start
    · rw [before k low, near k low]
    · by_cases high : k < start + count
      · rw [within k (by omega) high, middle k (by omega) high]
      · rw [after k (by omega) short, far k (by omega)]
  · exact widthAt_of_length_le (by omega)

theorem Whole.insertChars (low : 0 ≤ start) (fits : start + count ≤ r.cells.length)
    (left : Clean r.cells start) (right : Clean r.cells (r.cells.length - count)) (bg : Color) :
    Whole ((r.shiftRight start count).eraseRange start (start + count) bg).cells := by
  refine h.gapped (fun _ => some 1) fits left right (by simp [Row.eraseRange, Row.shiftRight]) (fun k near => ?_)
    (fun k near far => ?_) (fun k far short => ?_) (fun _ _ _ => by simp) (by simp) (by simp)
  · rw [widthAt_eraseRange, if_neg (by omega), widthAt_shiftRight r low, if_neg (by omega)]
  · rw [widthAt_eraseRange, if_pos ⟨near, far⟩, widthAt_shiftRight r low, if_neg (by omega)]
    obtain ⟨i, rfl⟩ := Int.eq_ofNat_of_zero_le (Int.le_trans low near)
    rw [widthAt_natCast, getElem?_eq_getElem (by omega)]
    rfl
  · rw [widthAt_eraseRange, if_neg (by omega), widthAt_shiftRight r low, if_pos ⟨far, short⟩]

theorem Whole.deleteChars (low : 0 ≤ start) (fits : start + count ≤ r.cells.length)
    (left : Clean r.cells start) (right : Clean r.cells (start + count)) (bg : Color) :
    Whole ((r.shiftLeft start count).eraseRange (r.cells.length - count) r.cells.length bg).cells := by
  let endless (k : Int) : Option Nat := if k < start then widthAt r.cells k else widthAt r.cells (k + count)
  have spliced : Paired (· = some 2) (· = some 0) endless := by
    refine h.paired.splice start start (-count) (Int.le_refl _) (fun k before => if_pos before) (fun k after => ?_) left ?_
      (fun k low high => by omega) (fun some => by omega) (fun some => by omega)
    · simp only [endless]
      rw [if_neg (by omega), Int.sub_neg]
    · rw [Int.sub_neg]
      exact right
  -- behind the moved cells the row is blank
  have length : (r.shiftLeft start count).cells.length = r.cells.length := by simp [Row.shiftLeft]
  have moved : ∀ k : Int, k < r.cells.length - count → widthAt (r.shiftLeft start count).cells k = endless k := fun k short => by
    rw [widthAt_shiftLeft]
    simp only [endless]
    by_cases before : k < start
    · rw [if_neg (by omega), if_pos before]
    · rw [if_pos ⟨by omega, by omega, by omega⟩, if_neg before]
  have past : ∀ k : Int, r.cells.length - count ≤ k → endless k = none := fun k far => by
    simp only [endless]
    by_cases before : k < start
    · omega
    · rw [if_neg before]
      exact widthAt_of_length_le (by omega)
  refine spliced.blanked (r.cells.length - count) r.cells.length (by omega) (fun k out => ?_) ?_ ?_
    fun k near far => eraseRange_blank near far bg
  · rw [widthAt_eraseRange, if_neg (by omega)]
    rcases out with short | far
    · exact moved k short
    · rw [widthAt_of_length_le (by omega), past k (by omega)]
  · rw [past _ (Int.le_refl _)]
    simp
  · rw [past _ (by omega)]
    simp

theorem Whole.rowResize {cols : Nat} (shape : RowOk cols r) {newCols : Nat} (clean : Clean r.cells newCols) :
    Whole (Vt.rowResize cols newCols r).cells := by
  have length : r.cells.length = cols := shape
  have narrowed : Paired (· = some 2) (· = some 0) fun k => if k < newCols then widthAt r.cells k else none :=
    h.paired.cut newCols none (by simp) (by simp) clean (fun k before => if_pos before) (fun k after => if_neg (by omega))
  by_cases wider : cols < newCols
  · refine h.paired.blanked cols newCols (by omega) (fun k out => ?_) (clean_of_length_le (by omega)) clean
      fun k low high => ?_
    · rw [widthAt_rowResize r shape]
      rcases out with before | after
      · rw [if_pos (by omega), if_pos before]
      · rw [if_neg (by omega), widthAt_of_length_le (by omega)]
    · rw [widthAt_rowResize r shape, if_pos high, if_neg (by omega)]
      simp
  · refine narrowed.cut newCols none (by simp) (by simp) (by simp) (fun k before => ?_) (fun k after => ?_)
    · rw [widthAt_rowResize r shape, if_pos before, if_pos (by omega), if_pos before]
    · rw [widthAt_rowResize r shape, if_neg (by omega)]

end Kept

end Lumimux.Vt
