import Lumimux.Vt.Wide

/-!
# Dirty rows

`Marks st st'`: each row is flagged or as it was, from `st` to `st'`.
-/

namespace Lumimux.Vt
open Lib Utf8 List

def RowMarks (r r' : Row) : Prop := r'.dirty = true ∨ (r'.cells = r.cells ∧ r'.dirty = r.dirty)

theorem RowMarks.refl (r : Row) : RowMarks r r := .inr ⟨rfl, rfl⟩

theorem RowMarks.trans {r r' r''} (one : RowMarks r r') (two : RowMarks r' r'') : RowMarks r r'' := by
  rcases two with flagged | ⟨cells, dirty⟩
  · exact .inl flagged
  · rcases one with flagged | ⟨cells', dirty'⟩
    · exact .inl (dirty.trans flagged)
    · exact .inr ⟨cells.trans cells', dirty.trans dirty'⟩

structure BufMarks (b b' : VtBuf) : Prop where
  length : b'.grid.length = b.grid.length
  row : ∀ (i : Nat) (r r' : Row), b.grid[i]? = some r → b'.grid[i]? = some r' → RowMarks r r'

def AllDirty (b : VtBuf) : Prop := ∀ r ∈ b.grid, r.dirty = true

section Buffers

variable {b b' b'' : VtBuf}

theorem BufMarks.of_grid (same : b'.grid = b.grid) : BufMarks b b' := by
  refine ⟨congrArg List.length same, fun i r r' old new => ?_⟩
  rw [same, old] at new
  cases new
  exact .refl r

theorem BufMarks.trans (one : BufMarks b b') (two : BufMarks b' b'') : BufMarks b b'' := by
  refine ⟨two.length.trans one.length, fun i r r'' old new => ?_⟩
  have bound : i < b'.grid.length := by
    rw [← two.length]
    exact (List.getElem?_eq_some_iff.mp new).1
  have middle := getElem?_eq_getElem bound
  exact (one.row i r _ old middle).trans (two.row i _ r'' middle new)

theorem AllDirty.marks (all : AllDirty b) (marks : BufMarks b b') : AllDirty b' := by
  intro r' member
  obtain ⟨i, found⟩ := mem_iff_getElem?.mp member
  have bound : i < b.grid.length := by
    rw [← marks.length]
    exact (List.getElem?_eq_some_iff.mp found).1
  have old := getElem?_eq_getElem bound
  rcases marks.row i _ r' old found with flagged | ⟨-, same⟩
  · exact flagged
  · exact same.trans (all _ (getElem_mem bound))

theorem BufMarks.modifyRow (b : VtBuf) (row : Int) {f : Row → Row} (marks : ∀ r ∈ b.grid, RowMarks r (f r)) :
    BufMarks b (b.modifyRow row f) := by
  unfold VtBuf.modifyRow
  split
  · exact .of_grid rfl
  · refine ⟨length_modify _ _ _, fun i r r' old new => ?_⟩
    rw [getElem?_modify, old, Option.map_eq_map, Option.map_some, Option.some.injEq] at new
    rw [← new]
    split
    · exact marks r (mem_of_getElem? old)
    · exact .refl r

theorem BufMarks.clearRows (b : VtBuf) (start stop : Int) (bg : Color) : BufMarks b (b.clearRows start stop bg) := by
  refine ⟨length_mapIdx, fun i r r' old new => ?_⟩
  rw [VtBuf.clearRows, getElem?_mapIdx, old, Option.map_some, Option.some.injEq] at new
  rw [← new]
  split
  · exact .inl rfl
  · exact .refl r

theorem BufMarks.dirtyRows {top bottom grid} (length : grid.length = b.grid.length)
    (outside : ∀ i, i < top ∨ bottom ≤ i → grid[i]? = b.grid[i]?) (same : b'.grid = dirtyRows top bottom grid) :
    BufMarks b b' := by
  refine ⟨by rw [same, dirtyRows_length, length], fun i r r' old new => ?_⟩
  rw [same, Vt.dirtyRows, getElem?_mapIdx, Option.map_eq_some_iff] at new
  obtain ⟨moved, found, rfl⟩ := new
  split
  · exact .inl rfl
  · rw [outside i (by omega), old] at found
    cases found
    exact .refl r

theorem outside_region {grid region : List Row} {top bottom i : Nat} (order : top ≤ bottom) (inside : bottom ≤ grid.length)
    (length : region.length = bottom - top) (outside : i < top ∨ bottom ≤ i) :
    (grid.take top ++ (region ++ grid.drop bottom))[i]? = grid[i]? := by
  have above : (grid.take top).length = top := length_take_of_le (by omega)
  rcases outside with before | after
  · rw [getElem?_append_left (by omega), getElem?_take_of_lt before]
  · rw [getElem?_append_right (by omega), getElem?_append_right (by omega), getElem?_drop, above, length]
    congr 1
    omega

theorem BufMarks.scroll {rows cols : Nat} (ok : BufOk rows cols b) (top bottom count : Int) (bg : Color) :
    BufMarks b (b.scroll top bottom count bg) := by
  unfold VtBuf.scroll
  extract_lets top' bottom' t bo n blank b'
  split
  · exact .of_grid rfl
  · rename_i region
    have inside : bo ≤ b.grid.length := by
      have := ok.rows_eq
      have := ok.grid_length
      grind
    have order : t + n ≤ bo := by grind
    split
    · refine .dirtyRows (scrolledUp_length order inside) (fun i outside => ?_) rfl
      rw [scrolledUp, ← append_assoc _ _ (b.grid.drop bo)]
      refine outside_region (by omega) inside ?_ outside
      rw [length_append, length_take, length_drop, length_replicate]
      omega
    · refine .dirtyRows (scrolledDown_length order inside) (fun i outside => ?_) rfl
      rw [scrolledDown, ← append_assoc _ _ (b.grid.drop bo)]
      refine outside_region (by omega) inside ?_ outside
      rw [length_append, length_take, length_drop, length_replicate]
      omega

theorem grid_ringPushAll (pushed : List Row) (b : VtBuf) : (pushed.foldl VtBuf.ringPush b).grid = b.grid := by
  refine foldlRecOn (motive := fun b' => b'.grid = b.grid) pushed VtBuf.ringPush rfl fun b' same r _ => ?_
  unfold VtBuf.ringPush
  split
  · exact same
  · exact same

theorem grid_pushRows (b src : VtBuf) (start count : Int) : (b.pushRows src start count).grid = b.grid := by
  unfold VtBuf.pushRows
  split
  · rfl
  · extract_lets start' n copied
    split
    · rfl
    · exact grid_ringPushAll copied b

end Buffers

/-- Every row is flagged or as it was. -/
structure VtState.Marks (st st' : VtState) : Prop where
  primary : BufMarks st.primary st'.primary
  alt : ∀ b', st'.alt = some b' → AllDirty b' ∨ ∃ b, st.alt = some b ∧ BufMarks b b'

namespace VtState.Marks

variable {rows cols : Nat} {st st' st'' : VtState}

theorem of_screens (same : st'.screens = st.screens) : st.Marks st' := by
  have primary : st'.primary = st.primary := congrArg Screens.primary same
  have alt : st'.alt = st.alt := congrArg Screens.alt same
  refine ⟨.of_grid (by rw [primary]), fun b' found => .inr ⟨b', ?_, .of_grid rfl⟩⟩
  rw [← alt]
  exact found

theorem refl (st : VtState) : st.Marks st := of_screens rfl

theorem trans (one : st.Marks st') (two : st'.Marks st'') : st.Marks st'' := by
  refine ⟨one.primary.trans two.primary, fun b'' found => ?_⟩
  rcases two.alt b'' found with all | ⟨b', found', marks⟩
  · exact .inl all
  · rcases one.alt b' found' with all | ⟨b, old, marks'⟩
    · exact .inl (all.marks marks)
    · exact .inr ⟨b, old, marks'.trans marks⟩

theorem backed (ok : st.Ok rows cols) : st.active = .alt → st.alt ≠ none := by
  intro active none
  have exists_ := ok.alt_exists
  rw [none, Option.isSome_none] at exists_
  rw [ok.active_eq, ← exists_] at active
  cases active

theorem setBuf (backed : st.active = .alt → st.alt ≠ none) {b} (marks : BufMarks st.buf b) : st.Marks (st.setBuf b) := by
  constructor
  · show BufMarks st.primary (if st.active = .primary then b else st.primary)
    split
    · rename_i active
      have shown : st.buf = st.primary := by rw [VtState.buf, active]; rfl
      rw [← shown]
      exact marks
    · exact .of_grid rfl
  · intro b' found
    right
    change (if st.active = .alt then some b else st.alt) = some b' at found
    split at found
    · rename_i active
      cases found
      obtain ⟨a, old⟩ := Option.ne_none_iff_exists'.mp (backed active)
      have shown : st.buf = a := by rw [VtState.buf, active, VtState.target, old]; rfl
      rw [shown] at marks
      exact ⟨a, old, marks⟩
    · exact ⟨b', found, .of_grid rfl⟩

theorem modifyRow (ok : st.Ok rows cols) (row : Int) {f : Row → Row} (marks : ∀ r, RowMarks r (f r)) :
    st.Marks (st.modifyBuf (·.modifyRow row f)) := setBuf (backed ok) (.modifyRow _ row fun r _ => marks r)

theorem editRow (ok : st.Ok rows cols) (f : Row → Row) : st.Marks (st.editRow f) := modifyRow ok _ fun _ => .inl rfl

theorem clearRows (backed : st.active = .alt → st.alt ≠ none) (start stop : Int) (bg : Color) :
    st.Marks (st.modifyBuf (·.clearRows start stop bg)) := setBuf backed (.clearRows _ start stop bg)

section
variable (ok : st.Ok rows cols)
include ok

theorem scroll (top bottom count : Int) (bg : Color) :
    st.Marks (st.modifyBuf (·.scroll top bottom count bg)) := setBuf (backed ok) (.scroll ok.buf top bottom count bg)

theorem index : st.Marks st.index := by
  unfold VtState.index
  split
  · exact scroll ok _ _ _ _
  · split
    · exact of_screens rfl
    · exact refl st

theorem reverseIndex : st.Marks st.reverseIndex := by
  unfold VtState.reverseIndex
  split
  · exact scroll ok _ _ _ _
  · split
    · exact of_screens rfl
    · exact refl st

theorem nextLine : st.Marks (VtState.index { st with cursorCol := 0 }) := by
  have moved : st.Marks { st with cursorCol := 0 } := of_screens rfl
  exact moved.trans (index (ok.setCol ⟨le_refl _, Int.natCast_nonneg cols⟩))

theorem putcharWrap (width : Nat) : st.Marks (st.putcharWrap width) := by
  unfold VtState.putcharWrap
  split
  · split
    · have wrapped : st.Marks (st.modifyBuf (·.modifyRow st.cursorRow fun r => { r with wrapped := true })) :=
        modifyRow ok _ fun _ => .inr ⟨rfl, rfl⟩
      have ok' : VtState.Ok rows cols (st.modifyBuf (·.modifyRow st.cursorRow fun r => { r with wrapped := true })) :=
        ok.modifyBuf fun _ shape => shape.modifyRow _ fun _ row => row
      exact wrapped.trans (nextLine ok')
    · exact of_screens rfl
  · exact refl st

end

theorem shiftRight_past {r : Row} {start : Int} (past : r.cells.length ≤ start) (count : Nat) :
    (r.shiftRight start count).cells = r.cells := by
  apply ext_getElem?
  intro i
  rw [Row.shiftRight, getElem?_mapIdx]
  cases found : r.cells[i]? with
  | none => rfl
  | some c =>
    have bound := (List.getElem?_eq_some_iff.mp found).1
    rw [Option.map_some, if_neg (by omega)]

section
variable (ok : st.Ok rows cols)
include ok

theorem putchar (cp width : Nat) : st.Marks (st.putchar cp width) := by
  have ok₁ := ok.putcharWrap width
  refine (putcharWrap ok width).trans ?_
  by_cases outside : (st.putcharWrap width).cursorRow < 0 ∨
      (st.putcharWrap width).buf.rows ≤ (st.putcharWrap width).cursorRow ∨
      (st.putcharWrap width).cursorCol < 0 ∨ (st.putcharWrap width).buf.cols ≤ (st.putcharWrap width).cursorCol
  · have past : (st.putcharWrap width).buf.cols ≤ (st.putcharWrap width).cursorCol := by
      have := ok₁.cursorRow_nonneg
      have := ok₁.cursorRow_lt
      have := ok₁.cursorCol_nonneg
      have := ok₁.rows_eq
      omega
    have refused : st.putchar cp width = (st.putcharWrap width).putcharInsert width := by
      unfold VtState.putchar
      refine if_pos (.inr (.inr (.inr ?_)))
      rw [(ok₁.putcharInsert width).cols_eq]
      have same : ((st.putcharWrap width).putcharInsert width).cursorCol = (st.putcharWrap width).cursorCol := by
        unfold VtState.putcharInsert
        split <;> rfl
      rw [same, ← ok₁.cols_eq]
      exact past
    rw [refused]
    unfold VtState.putcharInsert
    split
    · refine setBuf (backed ok₁) (.modifyRow _ _ fun r member => .inr ⟨shiftRight_past ?_ width, rfl⟩)
      rw [ok₁.buf.grid_rows r member, ← ok₁.cols_eq]
      exact past
    · exact refl _
  · have edit := putchar_edit st cp width outside
    refine (modifyRow ok₁ (st.putcharWrap width).cursorRow ?_).trans (of_screens edit)
    exact fun _ => .inl rfl

theorem csiEraseDisplay (mode : Nat) : st.Marks (st.csiEraseDisplay mode) := by
  unfold VtState.csiEraseDisplay
  split
  · exact (editRow ok _).trans (clearRows (backed (ok.eraseRange _ _ _)) _ _ _)
  · exact (clearRows (backed ok) _ _ _).trans (editRow (ok.clearRows _ _ _) _)
  · exact clearRows (backed ok) _ _ _
  · exact clearRows (backed ok) _ _ _
  · exact refl st

theorem csiEraseLine (mode : Nat) : st.Marks (st.csiEraseLine mode) := by
  unfold VtState.csiEraseLine
  split
  · exact editRow ok _
  · exact editRow ok _
  · exact editRow ok _
  · exact refl st

theorem scrollFromCursor (count : Int) : st.Marks (st.scrollFromCursor count) := by
  unfold VtState.scrollFromCursor
  split
  · exact refl st
  · exact scroll ok _ _ _ _

end

theorem allDirty_clearRows {b : VtBuf} {n : Nat} (whole : b.grid.length ≤ n) (bg : Color) : AllDirty (b.clearRows 0 n bg) := by
  intro r member
  obtain ⟨i, bound, rfl⟩ := mem_mapIdx.mp member
  rw [if_pos ⟨Int.natCast_nonneg i, by omega⟩]

theorem altscreenEnter (ok : st.Ok rows cols) : st.Marks st.altscreenEnter := by
  unfold VtState.altscreenEnter
  split
  · exact refl st
  · rename_i off
    have none : st.alt = none := by
      have exists_ := ok.alt_exists
      rw [Bool.eq_false_iff.mpr off] at exists_
      exact Option.not_isSome_iff_eq_none.mp (by rw [exists_]; exact Bool.false_ne_true)
    refine ⟨.of_grid rfl, fun b' found => .inl ?_⟩
    have made : (VtBuf.new st.primary.rows st.primary.cols 0).clearRows 0 st.primary.rows st.style.bg = b' := by
      have created : (st.alt.getD (VtBuf.new st.primary.rows st.primary.cols 0)).clearRows 0 st.primary.rows st.style.bg = b' :=
        Option.some.inj found
      rw [none] at created
      exact created
    rw [← made]
    exact allDirty_clearRows (le_of_eq length_replicate) _

theorem grid_altCaptured (st : VtState) : st.altCaptured.grid = st.primary.grid := by
  unfold VtState.altCaptured
  split
  · exact grid_pushRows _ _ _ _
  · rfl

theorem altscreenLeave (st : VtState) : st.Marks st.altscreenLeave := by
  unfold VtState.altscreenLeave
  split
  · exact refl st
  · refine ⟨.of_grid (grid_altCaptured st), fun b' found => ?_⟩
    have gone : (none : Option VtBuf) = some b' := found
    cases gone

theorem fullReset (ok : st.Ok rows cols) : st.Marks st.fullReset := by
  unfold VtState.fullReset
  extract_lets left reset
  have kept : st.Marks reset.tabReset := (altscreenLeave st).trans (of_screens rfl)
  have left_backed : left.active = .alt → left.alt ≠ none := backed ok.altscreenLeave
  have shown : reset.tabReset.active = .alt → reset.tabReset.alt ≠ none := left_backed
  exact kept.trans (clearRows shown _ _ _)

theorem apply (ok : st.Ok rows cols) (a : VtAction) : st.Marks (st.apply a) := by
  rcases st.apply_cases a with quiet | loud
  · exact of_screens quiet
  · generalize st.apply a = st' at loud ⊢
    cases loud with
    | print cp width => exact putchar ok _ width
    | index => exact index ok
    | nextLine => exact nextLine ok
    | reverseIndex => exact reverseIndex ok
    | scroll => exact scroll ok _ _ _ _
    | scrollFromCursor => exact scrollFromCursor ok _
    | eraseDisplay params => exact csiEraseDisplay ok _
    | eraseLine params => exact csiEraseLine ok _
    | deleteChars params | eraseChars params | insertChars params => exact editRow ok _
    | altscreenEnter => exact altscreenEnter ok
    | altscreenLeave => exact altscreenLeave st
    | fullReset => exact fullReset ok

theorem applyAll (ok : st.Ok rows cols) {actions : List VtAction} (inert : ∀ data, .osc data ∈ actions → Inert data) :
    st.Marks (actions.foldl VtState.apply st) := by
  induction actions generalizing st with
  | nil => exact refl st
  | cons a actions ih =>
    have ok' := ok.apply fun data same => inert data (same ▸ mem_cons_self)
    exact (apply ok a).trans (ih ok' fun data member => inert data (mem_cons_of_mem a member))

end VtState.Marks

theorem feed_marks {rows cols : Nat} {e : Emu} (ok : e.Ok rows cols) (w : WidthTable) (bytes : Bytes) :
    e.vt.Marks (e.feed w bytes).vt := by
  induction bytes generalizing e with
  | nil => exact .refl e.vt
  | cons b bytes ih =>
    have step : e.vt.Marks (e.step w b).vt := .applyAll ok.vt (processByte_inert w ok.osc b).2
    exact step.trans (ih (ok.step w b))

section Plain

variable {rows cols rows' cols' : Nat} {vt vt' : VtState} {b b' : VtBuf}

theorem BufOk.row?_eq (ok : BufOk rows cols b) {r} (low : 0 ≤ r) : b.row? r = b.grid[r.toNat]? := by
  unfold VtBuf.row?
  split
  · rename_i outside
    have rowsEq := ok.rows_eq
    have length := ok.grid_length
    exact (getElem?_eq_none (by omega)).symm
  · rfl

theorem BufMarks.cells (marks : BufMarks b b') (ok : BufOk rows cols b) (ok' : BufOk rows' cols' b') {r} (low : 0 ≤ r)
    (plain : ∀ row, b'.row? r = some row → row.dirty = false) : (b.row? r).map Row.cells = (b'.row? r).map Row.cells := by
  rw [ok'.row?_eq low] at plain ⊢
  rw [ok.row?_eq low]
  cases new : b'.grid[r.toNat]? with
  | none =>
    have short := List.getElem?_eq_none_iff.mp new
    rw [getElem?_eq_none (by rw [← marks.length]; exact short)]
  | some row' =>
    have inside := (List.getElem?_eq_some_iff.mp new).1
    rw [marks.length] at inside
    have old := getElem?_eq_getElem inside
    rw [old]
    rcases marks.row _ _ _ old new with flagged | ⟨same, -⟩
    · rw [plain row' new] at flagged
      cases flagged
    · exact congrArg some same.symm

theorem AllDirty.cells (all : AllDirty b') (ok : BufOk rows cols b) (ok' : BufOk rows cols' b') {r} (low : 0 ≤ r)
    (plain : ∀ row, b'.row? r = some row → row.dirty = false) : (b.row? r).map Row.cells = (b'.row? r).map Row.cells := by
  have length : b'.grid.length = b.grid.length := ok'.grid_length.trans ok.grid_length.symm
  have marks : BufMarks b b' := ⟨length, fun _ _ row _ new => .inl (all row (mem_of_getElem? new))⟩
  exact marks.cells ok ok' low plain

theorem VtState.buf_of_primary (active : vt.active = .primary) : vt.buf = vt.primary := by
  rw [VtState.buf, active]
  rfl

theorem VtState.buf_of_alt (active : vt.active = .alt) {b} (found : vt.alt = some b) : vt.buf = b := by
  rw [VtState.buf, active, VtState.target, found]
  rfl

theorem VtState.Ok.alt_of_active (ok : vt.Ok rows cols) (active : vt.active = .alt) : ∃ b, vt.alt = some b :=
  Option.ne_none_iff_exists'.mp (VtState.Marks.backed ok active)

theorem VtState.Marks.cells (marks : vt.Marks vt') (ok : vt.Ok rows cols) (ok' : vt'.Ok rows' cols')
    (still : vt.active = .alt → vt'.active = .alt) {r} (low : 0 ≤ r)
    (plain : ∀ row, vt'.buf.row? r = some row → row.dirty = false) :
    (vt.buf.row? r).map Row.cells = (vt'.buf.row? r).map Row.cells := by
  have sameRows : rows = rows' := ok.primary.grid_length.symm.trans (marks.primary.length.symm.trans ok'.primary.grid_length)
  by_cases now : vt'.active = .alt
  · obtain ⟨b', found'⟩ := ok'.alt_of_active now
    rw [VtState.buf_of_alt now found'] at plain ⊢
    have shape := ok'.alt b' found'
    rcases marks.alt b' found' with all | ⟨b, found, kept⟩
    · subst sameRows
      exact all.cells ok.buf shape low plain
    · have was : vt.active = .alt := by
        have exists_ := ok.alt_exists
        rw [found] at exists_
        rw [ok.active_eq, ← exists_]
        rfl
      rw [VtState.buf_of_alt was found]
      exact kept.cells (ok.alt b found) shape low plain
  · have primary : vt'.active = .primary := by
      have := ok'.active_eq
      split at this
      · exact absurd this now
      · exact this
    have was : vt.active = .primary := by
      have := ok.active_eq
      split at this
      · exact absurd (still this) now
      · exact this
    rw [VtState.buf_of_primary primary] at plain ⊢
    rw [VtState.buf_of_primary was]
    exact marks.primary.cells ok.primary ok'.primary low plain

end Plain

end Lumimux.Vt
