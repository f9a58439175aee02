import Lumimux.Vt.Lines
import Lumimux.Vt.Mask

/-!
# Wide characters on the screen

`Tidy` says of a call that no end of its columns lies inside a wide character.
-/

namespace Lumimux.Vt
open Lib Utf8 List

namespace VtState

def CleanAt (st : VtState) (k : Int) : Prop := ∀ r ∈ st.buf.row? st.cursorRow, Clean r.cells k
  deriving Decidable

def TidyGlyph (st : VtState) (width : Nat) : Prop :=
  let st := st.putcharWrap width
  if width = 0 then ∀ r ∈ st.buf.row? st.cursorRow, widthAt r.cells st.cursorCol = some 0 ∨ st.cursorCol = st.buf.cols
  else st.CleanAt st.cursorCol ∧ st.CleanAt (if st.modes.insert then st.buf.cols - width else st.cursorCol + width)
  deriving Decidable

def TidyErase (st : VtState) (mode : Nat) : Prop :=
  if mode = 0 then st.CleanAt st.cursorCol else if mode = 1 then st.CleanAt (st.cursorCol + 1) else True
  deriving Decidable

def TidyCsi (st : VtState) (params : List Int) (final : UInt8) : Prop :=
  let count := st.charCount (paramOr params 0 1)
  if final = 0x4A ∨ final = 0x4B then st.TidyErase (paramOr params 0 0)  -- ED, EL
  else if final = 0x50 ∨ final = 0x58 then st.CleanAt st.cursorCol ∧ st.CleanAt (st.cursorCol + count)  -- DCH, ECH
  else if final = 0x40 then st.CleanAt st.cursorCol ∧ st.CleanAt (st.buf.cols - count)  -- ICH
  else True
  deriving Decidable

/-- The call cuts no wide character. -/
def Tidy (st : VtState) : VtAction → Prop
  | .print _ width => st.TidyGlyph width
  | .csi params intermed final => intermed = 0 → st.TidyCsi params final
  | _ => True

section Decide

variable (st : VtState)

instance : (a : VtAction) → Decidable (st.Tidy a)
  | .print _ width => inferInstanceAs (Decidable (st.TidyGlyph width))
  | .csi _ _ _ => inferInstanceAs (Decidable (_ → _))
  | .execute _ => isTrue trivial
  | .esc _ _ => isTrue trivial
  | .osc _ => isTrue trivial
  | .dcs _ _ => isTrue trivial

end Decide

section Calls

variable {rows cols : Nat} {st : VtState}

variable {r : Row} {count width : Nat}

theorem Ok.row_length (ok : st.Ok rows cols) {row} (found : st.buf.row? row = some r) : r.cells.length = cols := by
  unfold VtBuf.row? at found
  split at found
  · cases found
  · exact ok.buf.grid_rows r (mem_of_getElem? found)

theorem Ok.cleanAt_end (ok : st.Ok rows cols) : st.CleanAt st.buf.cols := fun r found =>
  clean_of_length_le (by rw [ok.row_length found, ok.cols_eq])

theorem All.cleanAt_zero (h : st.All Whole) : st.CleanAt 0 := fun r found zero => by
  have pair := ((h.buf.row found) 0).mpr zero
  rw [widthAt_of_neg _ (by decide)] at pair
  cases pair

theorem All.eraseRange (h : st.All Whole) {start stop} (order : start ≤ stop) (left : st.CleanAt start)
    (right : st.CleanAt stop) (bg : Color) : (st.editRow (·.eraseRange start stop bg)).All Whole :=
  h.editRow fun r found => (h.buf.row found).eraseRange order (left r found) (right r found) bg

theorem row?_clearRows (b : VtBuf) (row : Int) (bg : Color) : (b.clearRows 0 row bg).row? row = b.row? row := by
  unfold VtBuf.row?
  show (if row < 0 ∨ b.rows ≤ row then none else (b.clearRows 0 row bg).grid[row.toNat]?) = _
  split
  · rfl
  · rw [VtBuf.clearRows, getElem?_mapIdx]
    have self : ¬ (0 ≤ (row.toNat : Int) ∧ (row.toNat : Int) < row) := by omega
    simp only [if_neg self, Option.map_id']

section
variable (ok : st.Ok rows cols)
include ok

theorem All.csiEraseLine (h : st.All Whole) {mode} (tidy : st.TidyErase mode) : (st.csiEraseLine mode).All Whole := by
  have left := ok.cursorCol_nonneg
  have right : st.cursorCol ≤ st.buf.cols := by
    rw [ok.cols_eq]
    exact ok.cursorCol_le
  unfold VtState.csiEraseLine
  split
  · exact h.eraseRange right tidy ok.cleanAt_end _
  · exact h.eraseRange (by omega) h.cleanAt_zero tidy _
  · exact h.eraseRange (by omega) h.cleanAt_zero ok.cleanAt_end _
  · exact h

theorem All.csiEraseDisplay (h : st.All Whole) {mode} (tidy : st.TidyErase mode) : (st.csiEraseDisplay mode).All Whole := by
  have left := ok.cursorCol_nonneg
  have right : st.cursorCol ≤ st.buf.cols := by
    rw [ok.cols_eq]
    exact ok.cursorCol_le
  unfold VtState.csiEraseDisplay
  split
  · exact (h.eraseRange right tidy ok.cleanAt_end _).clearRows _ _ _
  · -- the rows above are cleared first; the cursor's row is not among them
    have above := h.clearRows 0 st.cursorRow st.style.bg
    refine above.eraseRange (by omega) above.cleanAt_zero (fun r found => tidy r ?_) _
    have same : (st.modifyBuf (·.clearRows 0 st.cursorRow st.style.bg)).buf = st.buf.clearRows 0 st.cursorRow st.style.bg :=
      buf_setBuf st _
    change (st.modifyBuf (·.clearRows 0 st.cursorRow st.style.bg)).buf.row? st.cursorRow = some r at found
    rw [same, row?_clearRows] at found
    exact found
  · exact h.clearRows _ _ _
  · exact h.clearRows _ _ _
  · exact h

theorem charCount_fits (count : Nat) : st.cursorCol + st.charCount count ≤ cols := by
  have right := ok.cursorCol_le
  unfold charCount
  rw [ok.cols_eq]
  split <;> omega

theorem All.csiInsertChars (h : st.All Whole) (left : st.CleanAt st.cursorCol)
    (right : st.CleanAt (st.buf.cols - st.charCount count)) : (st.csiInsertChars count).All Whole := by
  refine h.editRow fun r found => ?_
  have length : (r.cells.length : Int) = st.buf.cols := by rw [ok.row_length found, ok.cols_eq]
  have fits := charCount_fits ok count
  refine (h.buf.row found).insertChars ok.cursorCol_nonneg ?_ (left r found) ?_ _
  · rw [length, ok.cols_eq]
    exact fits
  · rw [length]
    exact right r found

theorem All.csiDeleteChars (h : st.All Whole) (left : st.CleanAt st.cursorCol)
    (right : st.CleanAt (st.cursorCol + st.charCount count)) : (st.csiDeleteChars count).All Whole := by
  refine h.editRow fun r found => ?_
  have length : (r.cells.length : Int) = st.buf.cols := by rw [ok.row_length found, ok.cols_eq]
  have fits : st.cursorCol + st.charCount count ≤ r.cells.length := by
    rw [length, ok.cols_eq]
    exact charCount_fits ok count
  have deleted := (h.buf.row found).deleteChars ok.cursorCol_nonneg fits (left r found) (right r found) st.style.bg
  rw [length] at deleted
  exact deleted

end

theorem All.csiEraseChars (h : st.All Whole) (left : st.CleanAt st.cursorCol)
    (right : st.CleanAt (st.cursorCol + st.charCount count)) : (st.csiEraseChars count).All Whole :=
  h.eraseRange (by omega) left right _

theorem All.scrollFromCursor (h : st.All Whole) (count : Int) : (st.scrollFromCursor count).All Whole := by
  unfold VtState.scrollFromCursor
  split
  · exact h
  · exact h.scroll _ _ _ _

theorem All.fullReset (ok : st.Ok rows cols) (h : st.All Whole) : st.fullReset.All Whole := by
  have left := All.altscreenLeave ok h
  unfold VtState.fullReset
  extract_lets st₁ st₂
  have reset : st₂.tabReset.All Whole := left.of_screens rfl
  exact reset.clearRows _ _ _

theorem All.putcharWrap (h : st.All Whole) (width : Nat) : (st.putcharWrap width).All Whole := by
  unfold VtState.putcharWrap
  split
  · split
    · have marked : (st.modifyBuf (·.modifyRow st.cursorRow fun r => { r with wrapped := true })).All Whole :=
        h.setBuf (h.buf.modifyRow fun r found => show Whole r.cells from h.buf.row found)
      have home : VtState.All Whole
          { st.modifyBuf (·.modifyRow st.cursorRow fun r => { r with wrapped := true }) with cursorCol := 0 } :=
        marked.of_screens rfl
      exact home.index
    · exact h.of_screens rfl
  · exact h

theorem index_cursorCol (st : VtState) : st.index.cursorCol = st.cursorCol := by
  unfold VtState.index
  split
  · rfl
  · split <;> rfl

theorem putcharWrap_fits (ok : st.Ok rows cols) (two : 2 ≤ cols) (narrow : width ≤ 2) :
    (st.putcharWrap width).cursorCol + width ≤ cols := by
  unfold VtState.putcharWrap
  rw [ok.cols_eq]
  split
  · split
    · show (VtState.index _).cursorCol + (width : Int) ≤ cols
      rw [index_cursorCol]
      show (0 : Int) + width ≤ cols
      omega
    · show (if cols > width then (cols : Int) - width else 0) + (width : Int) ≤ cols
      split <;> omega
  · omega

section
variable (ok : st.Ok rows cols) (one_or_two : width = 1 ∨ width = 2) (fits : st.cursorCol + width ≤ cols) (cp : Nat)
  (length : r.cells.length = cols)
include ok one_or_two fits length

theorem widthAt_putcharRow (k : Int) :
    widthAt (st.putcharRow cp width r).cells k =
      if st.cursorCol ≤ k ∧ k < st.cursorCol + width then if k = st.cursorCol then some width else some 0
      else widthAt r.cells k := by
  obtain ⟨col, column⟩ := Int.eq_ofNat_of_zero_le ok.cursorCol_nonneg
  rw [column] at fits
  have here : col < r.cells.length := by omega
  unfold VtState.putcharRow
  extract_lets col' r₁ r₂
  have same : col' = col := by simp [col', column]
  rw [column]
  show widthAt r₂.cells k = _
  have first : widthAt r₁.cells k = if k = (col : Int) then some width else widthAt r.cells k := by
    simp only [r₁, same]
    exact widthAt_setCell r here _ k
  rcases one_or_two with rfl | rfl
  · have single : r₂ = r₁ := if_neg (by simp)
    rw [single, first]
    split_ifs <;> first | rfl | omega
  · have next : col + 1 < r₁.cells.length := by
      simp only [r₁, Row.setCell, length_set]
      omega
    have double : r₂ = r₁.setCell (col + 1) Cell.continuation := by
      simp only [r₂, same]
      exact if_pos ⟨trivial, by rw [ok.cols_eq]; omega⟩
    rw [double, widthAt_setCell r₁ next, first]
    split_ifs <;> first | rfl | omega

theorem whole_overwrite (whole : Whole r.cells)
    (left : Clean r.cells st.cursorCol) (right : Clean r.cells (st.cursorCol + width)) :
    Whole (st.putcharRow cp width r).cells := by
  have widths := widthAt_putcharRow ok one_or_two fits cp length
  refine whole.paired.splice st.cursorCol (st.cursorCol + width) 0 (by omega) (fun k before => ?_) (fun k after => ?_) left
    ?_ (fun k low high => ?_) (fun some => ?_) (fun some => ?_)
  · rw [widths, if_neg (by omega)]
  · rw [widths, if_neg (by omega), Int.sub_zero]
  · rw [Int.sub_zero]
    exact right
  · -- only a wide character has a second column
    rw [widths, widths, if_pos (by omega), if_pos (by omega), if_pos (by omega), if_neg (by omega)]
    have wide : width = 2 := by omega
    simp [wide]
  · rw [widths, if_pos (by omega), if_pos rfl]
    simp only [Option.some.injEq]
    omega
  · rw [widths, if_pos (by omega)]
    split_ifs
    · simp only [Option.some.injEq]
      omega
    · simp

theorem whole_insert (whole : Whole r.cells)
    (left : Clean r.cells st.cursorCol) (right : Clean r.cells (cols - width)) :
    Whole (st.putcharRow cp width (r.shiftRight st.cursorCol width)).cells := by
  have low := ok.cursorCol_nonneg
  have shifted : (r.shiftRight st.cursorCol width).cells.length = cols := by
    rw [← length]
    simp [Row.shiftRight]
  have written : (st.putcharRow cp width (r.shiftRight st.cursorCol width)).cells.length = r.cells.length :=
    (Ok.putcharRow (show RowOk cols (r.shiftRight st.cursorCol width) from shifted) st cp width).trans length.symm
  have widths := widthAt_putcharRow ok one_or_two fits cp shifted
  have room : st.cursorCol + width ≤ r.cells.length := by omega
  refine whole.gapped (fun k => if k = st.cursorCol then some width else some 0) room left (by rw [length]; exact right)
    written (fun k before => ?_) (fun k near far => ?_) (fun k far short => ?_) (fun k near far => ?_) (fun some => ?_)
    (fun some => ?_)
  · rw [widths, if_neg (by omega), widthAt_shiftRight r low, if_neg (by omega)]
  · rw [widths, if_pos ⟨near, far⟩]
  · rw [widths, if_neg (by omega), widthAt_shiftRight r low, if_pos ⟨far, short⟩]
  · rw [if_pos (by omega), if_neg (by omega)]
    have wide : width = 2 := by omega
    simp [wide]
  · rw [if_pos rfl]
    simp only [ne_eq, Option.some.injEq]
    omega
  · split_ifs
    · simp only [ne_eq, Option.some.injEq]
      omega
    · simp

end

theorem whole_congr {cells cells'} (same : ∀ k, widthAt cells' k = widthAt cells k) (whole : Whole cells) : Whole cells' := by
  intro k
  rw [same, same]
  exact whole k

theorem putchar_edit (st : VtState) (cp width : Nat)
    (inside : ¬ ((st.putcharWrap width).cursorRow < 0 ∨ (st.putcharWrap width).buf.rows ≤ (st.putcharWrap width).cursorRow ∨
      (st.putcharWrap width).cursorCol < 0 ∨ (st.putcharWrap width).buf.cols ≤ (st.putcharWrap width).cursorCol)) :
    (st.putchar cp width).screens =
      ((st.putcharWrap width).modifyBuf (·.modifyRow (st.putcharWrap width).cursorRow fun r =>
        (st.putcharWrap width).putcharRow cp width
          (if (st.putcharWrap width).modes.insert then r.shiftRight (st.putcharWrap width).cursorCol width else r))).screens := by
  unfold VtState.putchar
  generalize st.putcharWrap width = st₁ at inside ⊢
  unfold VtState.putcharInsert
  split
  · dsimp only [VtState.modifyBuf]
    have cursorRow : ∀ b, (st₁.setBuf b).cursorRow = st₁.cursorRow := fun _ => rfl
    have cursorCol : ∀ b, (st₁.setBuf b).cursorCol = st₁.cursorCol := fun _ => rfl
    rw [buf_setBuf, VtBuf.rows_modifyRow, VtBuf.cols_modifyRow, cursorRow, cursorCol, if_neg inside]
    show (VtState.setBuf _ _).screens = _
    rw [setBuf_setBuf]
    refine congrArg (fun b => (st₁.setBuf b).screens) ?_
    rw [VtBuf.modifyRow_modifyRow]
    have row : ∀ r, (st₁.setBuf (st₁.buf.modifyRow st₁.cursorRow fun r => r.shiftRight st₁.cursorCol width)).putcharRow cp
        width r = st₁.putcharRow cp width r := by
      intro r
      unfold VtState.putcharRow
      rw [buf_setBuf, VtBuf.cols_modifyRow]
      rfl
    simp only [row]
  · dsimp only
    rw [if_neg inside]
    rfl

theorem widthAt_shiftRight_zero (r : Row) {start} (low : 0 ≤ start) (k : Int) :
    widthAt (r.shiftRight start 0).cells k = widthAt r.cells k := by
  rw [widthAt_shiftRight r low]
  split
  · rw [Int.natCast_zero, Int.sub_zero]
  · rfl

theorem whole_zero (ok : st.Ok rows cols) (cp : Nat) (whole : Whole r.cells)
    (zero : widthAt r.cells st.cursorCol = some 0) : Whole (st.putcharRow cp 0 r).cells := by
  have low := ok.cursorCol_nonneg
  have here : st.cursorCol.toNat < r.cells.length := by
    by_contra past
    rw [widthAt_of_length_le (by omega)] at zero
    cases zero
  refine whole_congr (fun k => ?_) whole
  unfold VtState.putcharRow
  extract_lets col r₁ r₂
  have single : r₂ = r₁ := if_neg (by simp)
  show widthAt r₂.cells k = _
  rw [single, widthAt_setCell r here]
  split
  · rename_i same
    rw [same, Int.toNat_of_nonneg low]
    exact zero.symm
  · rfl

theorem All.putchar (ok : st.Ok rows cols) (two : 2 ≤ cols) (h : st.All Whole) (cp : Nat)
    (narrow : width ≤ 2) (tidy : st.TidyGlyph width) : (st.putchar cp width).All Whole := by
  have ok₁ := ok.putcharWrap width
  have whole₁ := h.putcharWrap width
  have fits := putcharWrap_fits ok two narrow
  have edit := putchar_edit st cp width
  have low := ok₁.cursorCol_nonneg
  by_cases past : (st.putcharWrap width).cursorCol = cols
  · -- only a character without a column can be left there; it is not written
    have empty : width = 0 := by omega
    subst empty
    have outside : (st.putchar cp 0) = (st.putcharWrap 0).putcharInsert 0 := by
      unfold VtState.putchar
      have inserted := ok₁.putcharInsert 0
      refine if_pos (.inr (.inr (.inr ?_)))
      rw [inserted.cols_eq]
      have same : ((st.putcharWrap 0).putcharInsert 0).cursorCol = (st.putcharWrap 0).cursorCol := by
        unfold VtState.putcharInsert
        split <;> rfl
      omega
    rw [outside]
    unfold VtState.putcharInsert
    split
    · exact whole₁.setBuf (whole₁.buf.modifyRow fun r found =>
        whole_congr (widthAt_shiftRight_zero r low) (whole₁.buf.row found))
    · exact whole₁
  · have inside : (st.putcharWrap width).cursorCol < cols := by
      have high := ok₁.cursorCol_le
      omega
    refine VtState.All.of_screens (whole₁.setBuf (whole₁.buf.modifyRow fun r found => ?_)) (edit ?_)
    · have whole := whole₁.buf.row found
      have length := ok₁.row_length found
      unfold TidyGlyph at tidy
      dsimp only at tidy
      by_cases empty : width = 0
      · subst empty
        rw [if_pos rfl] at tidy
        have zero := (tidy r found).resolve_right (by rw [ok₁.cols_eq]; exact past)
        split
        · exact whole_zero ok₁ cp (whole_congr (widthAt_shiftRight_zero r low) whole)
            ((widthAt_shiftRight_zero r low _).trans zero)
        · exact whole_zero ok₁ cp whole zero
      · rw [if_neg empty, ok₁.cols_eq] at tidy
        have right := tidy.2
        have one_or_two : width = 1 ∨ width = 2 := by omega
        split
        · rename_i insert
          rw [if_pos insert] at right
          exact whole_insert ok₁ one_or_two fits cp length whole (tidy.1 r found) (right r found)
        · rename_i overwrite
          rw [if_neg overwrite] at right
          exact whole_overwrite ok₁ one_or_two fits cp length whole (tidy.1 r found) (right r found)
    · rw [ok₁.rows_eq, ok₁.cols_eq]
      have bottom := ok₁.cursorRow_lt
      have top := ok₁.cursorRow_nonneg
      omega

def Narrow (a : VtAction) : Prop := ∀ cp width, a = .print cp width → width ≤ 2

theorem All.apply (ok : st.Ok rows cols) (two : 2 ≤ cols) (h : st.All Whole) {a} (narrow : Narrow a) (tidy : st.Tidy a) :
    (st.apply a).All Whole := by
  rcases st.apply_cases a with quiet | loud
  · exact h.of_screens quiet
  · generalize st.apply a = st' at loud ⊢
    cases loud with
    | print cp width => exact All.putchar ok two h _ (narrow cp width rfl) tidy
    | index => exact h.index
    | nextLine =>
      have home : VtState.All Whole { st with cursorCol := 0 } := h.of_screens rfl
      exact home.index
    | reverseIndex => exact h.reverseIndex
    | scroll => exact h.scroll _ _ _ _
    | scrollFromCursor => exact h.scrollFromCursor _
    | eraseDisplay params => exact All.csiEraseDisplay ok h (tidy rfl)
    | eraseLine params => exact All.csiEraseLine ok h (tidy rfl)
    | deleteChars params => exact All.csiDeleteChars ok h (tidy rfl).1 (tidy rfl).2
    | eraseChars params => exact h.csiEraseChars (tidy rfl).1 (tidy rfl).2
    | insertChars params => exact All.csiInsertChars ok h (tidy rfl).1 (tidy rfl).2
    | altscreenEnter => exact h.altscreenEnter
    | altscreenLeave => exact All.altscreenLeave ok h
    | fullReset => exact All.fullReset ok h

end Calls

end VtState

section Parser

open VtState (Narrow)

theorem emitPrint_narrow (w : WidthTable) (cp : Nat) : Narrow (emitPrint w cp) := by
  intro cp' width same
  obtain ⟨-, rfl⟩ := VtAction.print.inj same
  have bound := runeWidth_le_two w cp
  split <;> omega

theorem processByte_narrow (w : WidthTable) (p : VtParse) (c : UInt8) : ∀ a ∈ (processByte w p c).2, Narrow a := by
  intro a member
  cases (processByte_parsed w p c).actions a member with
  | print cp => exact emitPrint_narrow w cp
  | execute c | csi p' final | esc intermed final | osc n | dcs introducer data => exact fun _ _ same => by cases same

end Parser

/-- No call of the byte cuts a wide character. -/
def Emu.Tidy (w : WidthTable) (e : Emu) (b : UInt8) : Prop := Along VtState.apply VtState.Tidy e.vt (processByte w e.parse b).2
  deriving Decidable

/-- The operation cuts no wide character. -/
def EmuOp.Tidy (w : WidthTable) (e : Emu) : EmuOp → Prop
  | .feed bytes => Along (Emu.step w) (Emu.Tidy w) e bytes
  | .resize _ cols => 2 ≤ (cols : Nat) ∧ e.vt.All (Clean · (cols : Nat))
  | _ => True

instance (w : WidthTable) (e : Emu) (op : EmuOp) : Decidable (op.Tidy w e) := by
  cases op <;> unfold EmuOp.Tidy <;> infer_instance

structure Emu.Upright (rows cols : Nat) (e : Emu) : Prop where
  ok : e.Ok rows cols
  two : 2 ≤ cols
  whole : e.vt.All Whole

theorem VtState.All.applyAll {rows cols st} (ok : st.Ok rows cols) (two : 2 ≤ cols) (h : st.All Whole) {actions}
    (inert : ∀ data, .osc data ∈ actions → Inert data) (narrow : ∀ a ∈ actions, Narrow a)
    (tidy : Along VtState.apply VtState.Tidy st actions) : (actions.foldl VtState.apply st).All Whole := by
  induction actions generalizing st with
  | nil => exact h
  | cons a rest ih =>
    have next : (st.apply a).Ok rows cols := ok.apply fun data same => inert data (same ▸ mem_cons_self)
    exact ih next (VtState.All.apply ok two h (narrow a mem_cons_self) tidy.1)
      (fun data member => inert data (mem_cons_of_mem _ member))
      (fun a' member => narrow a' (mem_cons_of_mem _ member)) tidy.2

theorem Emu.Upright.step {rows cols : Nat} {e : Emu} (h : e.Upright rows cols) {w : WidthTable} {b : UInt8}
    (tidy : e.Tidy w b) : (e.step w b).Upright rows cols :=
  ⟨h.ok.step w b, h.two, VtState.All.applyAll h.ok.vt h.two h.whole (processByte_inert w h.ok.osc b).2
    (processByte_narrow w e.parse b) tidy⟩

theorem EmuOp.apply_upright {e : Emu} (h : ∃ rows cols, e.Upright rows cols) {w : WidthTable} {op : EmuOp}
    (tidy : op.Tidy w e) : ∃ rows cols, (op.apply w e).Upright rows cols := by
  obtain ⟨rows, cols, h⟩ := h
  cases op with
  | feed bytes => exact ⟨rows, cols, tidy.invariant (I := Emu.Upright rows cols) (fun e b upright => upright.step) h⟩
  | resize newRows newCols =>
    exact ⟨newRows, newCols, ⟨h.ok.vt.resize newRows.pos newCols.pos, h.ok.osc⟩, tidy.1, h.whole.resize h.ok.vt tidy.2⟩
  | altscreenEnter => exact ⟨rows, cols, ⟨h.ok.vt.altscreenEnter, h.ok.osc⟩, h.two, h.whole.altscreenEnter⟩
  | altscreenLeave => exact ⟨rows, cols, ⟨h.ok.vt.altscreenLeave, h.ok.osc⟩, h.two, h.whole.altscreenLeave h.ok.vt⟩
  | parseReset => exact ⟨rows, cols, ⟨h.ok.vt, fun b member => by cases member⟩, h.two, h.whole⟩

/-- Wide characters are whole on the grid and in the scrollback. -/
def VtState.WideWhole (st : VtState) : Prop := ∀ r ∈ st.buf.lines, Whole r.cells

/-- **Wide characters stay whole**, on the grid and in the scrollback, as long as nothing cuts one. -/
theorem run_wide_whole (w : WidthTable) (rows cols : ℕ+) (two : 2 ≤ (cols : Nat)) (scrollback : Int) (ops : List EmuOp)
    (tidy : Along (EmuOp.apply w) (EmuOp.Tidy w) (Emu.new rows cols scrollback) ops) :
    (EmuOp.run w (Emu.new rows cols scrollback) ops).vt.WideWhole := by
  have start : (Emu.new rows cols scrollback).Upright rows cols := by
    refine ⟨Emu.Ok.new rows.pos cols.pos scrollback, two, fun b member => ?_⟩
    rcases VtState.mem_bufs.mp member with rfl | alt | scrollback
    · exact VtBuf.All.new _ _ _
    · cases alt
    · cases scrollback
  obtain ⟨_, _, upright⟩ := tidy.invariant (I := fun e : Emu => ∃ rows cols, e.Upright rows cols)
    (fun e op h => EmuOp.apply_upright h) ⟨rows, cols, start⟩
  exact upright.whole.buf

theorem narrowed_wide_whole : (EmuOp.run latestTable (Emu.new (1 : ℕ+) (4 : ℕ+) 0)
    [.feed [0xE3, 0x81, 0x82, 0x61], .resize 1 2]).vt.WideWhole :=
  run_wide_whole latestTable 1 4 (by decide) 0 [.feed [0xE3, 0x81, 0x82, 0x61], .resize 1 2] (by decide +kernel)

theorem overwritten_not_whole :
    ¬ (EmuOp.run latestTable (Emu.new (1 : ℕ+) (2 : ℕ+) 0) [.feed [0xE3, 0x81, 0x82, 0x0D, 0x61]]).vt.WideWhole ∧
      ¬ (EmuOp.run latestTable (Emu.new (1 : ℕ+) (3 : ℕ+) 0) [.feed [0x61, 0xE3, 0x81, 0x82], .resize 1 2]).vt.WideWhole := by
  constructor
  · intro whole
    obtain ⟨r, member, alone, zero⟩ : ∃ r ∈ (EmuOp.run latestTable (Emu.new (1 : ℕ+) (2 : ℕ+) 0)
        [.feed [0xE3, 0x81, 0x82, 0x0D, 0x61]]).vt.buf.lines, widthAt r.cells 0 ≠ some 2 ∧ widthAt r.cells 1 = some 0 := by
      decide +kernel
    exact alone ((whole r member 1).mpr zero)
  · intro whole
    obtain ⟨r, member, two, alone⟩ : ∃ r ∈ (EmuOp.run latestTable (Emu.new (1 : ℕ+) (3 : ℕ+) 0)
        [.feed [0x61, 0xE3, 0x81, 0x82], .resize 1 2]).vt.buf.lines, widthAt r.cells 1 = some 2 ∧ widthAt r.cells 2 ≠ some 0 := by
      decide +kernel
    exact alone ((whole r member 2).mp two)

end Lumimux.Vt
