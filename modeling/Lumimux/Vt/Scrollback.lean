import Lumimux.Lib.Ring
import Lumimux.Lib.Run
import Lumimux.Vt.BufInvariant

/-!
# Scrollback is a bounded list

Everything pushed stands in a log, which a resize cuts or pads.
-/

namespace Lumimux.Vt

open Lib List Option

def fitCells (cols : Nat) (cells : List Cell) : List Cell :=
  cells.take cols ++ replicate (cols - cells.length) Cell.clear

def Row.recut (cols : Nat) (r : Row) : Row :=
  if r.cells.length = cols then r else { r with cells := fitCells cols r.cells, dirty := true }

def Row.copyTo (cols : Nat) (r : Row) : Row := ⟨fitCells cols r.cells, false, true⟩

def Row.showing (cols : Nat) (line : Option Row) (r : Row) : Row :=
  { r with cells := fitCells cols ((line.map Row.cells).getD []), dirty := true }

section Rows

variable {cols : Nat} {r : Row}

theorem rowResize_eq (shape : RowOk cols r) (newCols : Nat) :
    (if newCols ≠ cols then rowResize cols newCols r else r) = r.recut newCols := by
  have length : r.cells.length = cols := shape
  rw [Row.recut, length]
  by_cases same : newCols = cols
  · rw [if_neg (not_not.mpr same), if_pos same.symm]
  · rw [if_pos same, if_neg (Ne.symm same), rowResize, fitCells, take_append, length]
    congr 2
    rw [take_replicate, Nat.min_eq_right (by omega)]

theorem pushedRow_eq (shape : RowOk cols r) (dstCols : Nat) : pushedRow dstCols cols r = r.copyTo dstCols := by
  have length : r.cells.length = cols := shape
  rw [pushedRow, Row.copyTo, fitCells, length]
  congr 2
  · rw [← length, Nat.min_comm, ← take_eq_take_min]
  · congr 1
    omega

end Rows

inductive BufOp
  | scroll (top bottom count : Int) (bg : Color)
  | pushRows (src : VtBuf) (start count : Int)
  | resize (rows cols : Nat)
  | draw (row : Int) (col : Nat) (c : Cell) (wrapped dirty : Bool)

/-- The operation has a size the buffer can take. -/
def BufOp.Sized : BufOp → Prop
  | .scroll .. => True
  | .pushRows src _ _ => BufOk src.rows src.cols src
  | .resize rows cols => 1 ≤ rows ∧ 1 ≤ cols
  | .draw .. => True

def VtBuf.apply (buf : VtBuf) : BufOp → VtBuf
  | .scroll top bottom count bg => buf.scroll top bottom count bg
  | .pushRows src start count => buf.pushRows src start count
  | .resize rows cols => buf.resize rows cols
  | .draw row col c wrapped dirty =>
    buf.modifyRow row fun r => { r.setCell col c with wrapped := wrapped, dirty := dirty }

def VtBuf.leaving (buf : VtBuf) (top bottom count : Int) : List Row :=
  if top ≤ 0 ∧ 0 < count then (buf.grid.take bottom.toNat).take count.toNat else []

def VtBuf.copies (src : VtBuf) (cols : Nat) (start count : Int) : List Row :=
  ((src.grid.drop start.toNat).take count.toNat).map (Row.copyTo cols)

def BufOp.pushes (buf : VtBuf) : BufOp → List Row
  | .scroll top bottom count _ => buf.leaving top bottom count
  | .pushRows src start count => src.copies buf.cols start count
  | .resize .. => []
  | .draw .. => []

structure Logged where
  buf : VtBuf
  log : List Row

def Logged.step (s : Logged) (op : BufOp) : Logged :=
  let buf := s.buf.apply op
  ⟨buf, s.log.map (Row.recut buf.cols) ++ op.pushes s.buf⟩

def Logged.new (rows cols scrollback : Nat) : Logged := ⟨VtBuf.new rows cols scrollback, []⟩

def Logged.lines (s : Logged) : List Row := recent s.buf.ringCap s.log ++ s.buf.grid

def VtBuf.Holds (buf : VtBuf) (log : List Row) : Prop := RingHolds buf.ring buf.ringHead buf.ringLen log

structure Logged.Kept (cap : Nat) (s : Logged) : Prop where
  shape : BufOk s.buf.rows s.buf.cols s.buf
  widths : ∀ r ∈ s.log, RowOk s.buf.cols r
  cap_eq : s.buf.ringCap = cap
  ring : s.buf.Holds s.log

theorem ringPush_holds {buf : VtBuf} (length : buf.ring.length = buf.ringCap) {log : List Row}
    (h : buf.Holds log) (r : Row) : (buf.ringPush r).Holds (log ++ [r]) := by
  unfold VtBuf.Holds VtBuf.ringPush
  split
  · rename_i none
    have empty : buf.ring = [] := eq_nil_of_length_eq_zero (length.trans none)
    have len : buf.ringLen = 0 := by
      have := h.len_eq
      rw [length, none] at this
      omega
    rw [empty, len]
    exact .empty _
  · rename_i some
    have pushed := h.push (by omega) r
    rw [length] at pushed
    exact pushed

structure VtBuf.Rung (buf buf' : VtBuf) : Prop where
  rows : buf'.rows = buf.rows
  cols : buf'.cols = buf.cols
  cap : buf'.ringCap = buf.ringCap
  length : buf'.ring.length = buf.ring.length

theorem ringPush_rung (buf : VtBuf) (r : Row) : buf.Rung (buf.ringPush r) := by
  unfold VtBuf.ringPush
  split
  · exact ⟨rfl, rfl, rfl, rfl⟩
  · exact ⟨rfl, rfl, rfl, length_set⟩

theorem ringPushAll_holds (pushed : List Row) {buf : VtBuf} (length : buf.ring.length = buf.ringCap) {log : List Row}
    (h : buf.Holds log) :
    buf.Rung (pushed.foldl VtBuf.ringPush buf) ∧ (pushed.foldl VtBuf.ringPush buf).Holds (log ++ pushed) := by
  induction pushed generalizing buf log with
  | nil =>
    rw [append_nil]
    exact ⟨⟨rfl, rfl, rfl, rfl⟩, h⟩
  | cons r rest ih =>
    have once := ringPush_rung buf r
    obtain ⟨more, holds⟩ := ih (once.length.trans (length.trans once.cap.symm)) (ringPush_holds length h r)
    rw [append_assoc, singleton_append] at holds
    exact ⟨⟨more.rows.trans once.rows, more.cols.trans once.cols, more.cap.trans once.cap,
      more.length.trans once.length⟩, holds⟩

section Steps

variable {cap : Nat} {s : Logged}

theorem recut_same {cols : Nat} {rows : List Row} (widths : ∀ r ∈ rows, RowOk cols r) : rows.map (Row.recut cols) = rows := by
  refine (map_congr_left fun r member => ?_).trans (map_id rows)
  exact if_pos (widths r member)

theorem rowOk_recut (cols : Nat) (r : Row) : RowOk cols (r.recut cols) := by
  rw [RowOk, Row.recut]
  split
  · assumption
  · simp only [fitCells, length_append, length_take, length_replicate]
    omega

theorem leaving_idle {buf : VtBuf} (height : buf.grid.length = buf.rows) {top bottom count : Int}
    (idle : (if top < 0 then 0 else top) ≥ (if bottom > buf.rows then (buf.rows : Int) else bottom) ∨ count = 0) :
    buf.leaving top bottom count = [] := by
  unfold VtBuf.leaving
  split
  · rename_i up
    have none : bottom.toNat = 0 ∨ buf.grid.length = 0 := by grind
    rcases none with zero | zero
    · rw [zero, take_zero, take_nil]
    · rw [eq_nil_of_length_eq_zero zero, take_nil, take_nil]
  · rfl

theorem scroll_holds {buf : VtBuf} (shape : BufOk buf.rows buf.cols buf) {log} (h : buf.Holds log) (top bottom count : Int)
    (bg : Color) : buf.Rung (buf.scroll top bottom count bg) ∧
      (buf.scroll top bottom count bg).Holds (log ++ buf.leaving top bottom count) := by
  have height := shape.grid_length
  unfold VtBuf.scroll
  extract_lets top' bottom' t b n blank counted leaving pushed
  split
  · rename_i idle
    rw [leaving_idle height idle, append_nil]
    exact ⟨⟨rfl, rfl, rfl, rfl⟩, h⟩
  · rename_i busy
    have clamped : t = top.toNat := by grind
    split
    · rename_i up
      have same : buf.leaving top bottom count = if t = 0 then leaving else [] := by
        unfold VtBuf.leaving
        by_cases atTop : top ≤ 0
        · have zero : t = 0 := by omega
          have number : min n buf.grid.length = min (min count.toNat bottom.toNat) buf.grid.length := by grind
          rw [if_pos ⟨atTop, up⟩, if_pos zero, take_take]
          show _ = (buf.grid.drop t).take n
          rw [zero, drop_zero, take_eq_take_min, ← number, ← take_eq_take_min]
        · rw [if_neg fun both => atTop both.1, if_neg (by omega)]
      have both : counted.Rung pushed ∧ pushed.Holds (log ++ if t = 0 then leaving else []) := by
        unfold pushed
        split
        · have length : counted.ring.length = counted.ringCap := shape.ring_length
          exact ringPushAll_holds leaving length h
        · rw [append_nil]
          exact ⟨⟨rfl, rfl, rfl, rfl⟩, h⟩
      rw [same]
      exact ⟨⟨both.1.rows, both.1.cols, both.1.cap, both.1.length⟩, both.2⟩
    · rename_i down
      have nothing : buf.leaving top bottom count = [] := if_neg fun both => down both.2
      rw [nothing, append_nil]
      exact ⟨⟨rfl, rfl, rfl, rfl⟩, h⟩

theorem pushRows_holds {buf src} (shape : BufOk buf.rows buf.cols buf) (source : BufOk src.rows src.cols src) {log}
    (h : buf.Holds log) (start count : Int) : buf.Rung (buf.pushRows src start count) ∧
      (buf.pushRows src start count).Holds (log ++ src.copies buf.cols start count) := by
  unfold VtBuf.pushRows VtBuf.copies
  split
  · rename_i idle
    refine ⟨⟨rfl, rfl, rfl, rfl⟩, ?_⟩
    rcases idle with none | zero
    · have empty : buf.ring = [] := eq_nil_of_length_eq_zero (shape.ring_length.trans none)
      have len : buf.ringLen = 0 := by
        have := shape.ringLen_le
        omega
      rw [VtBuf.Holds, empty, len]
      exact .empty _
    · rw [Int.toNat_of_nonpos zero, take_zero, map_nil, append_nil]
      exact h
  · extract_lets start' n copied
    have height := source.grid_length
    split
    · rename_i past
      have nothing : src.grid.drop start.toNat = [] := drop_of_length_le (by grind)
      rw [nothing, take_nil, map_nil, append_nil]
      exact ⟨⟨rfl, rfl, rfl, rfl⟩, h⟩
    · rename_i some
      have first : start'.toNat = start.toNat := by grind
      have same : copied = ((src.grid.drop start.toNat).take count.toNat).map (Row.copyTo buf.cols) := by
        show ((src.grid.drop start'.toNat).take n.toNat).map _ = _
        have cut : min n.toNat (src.grid.drop start.toNat).length =
            min count.toNat (src.grid.drop start.toNat).length := by
          rw [length_drop]
          grind
        rw [first, take_eq_take_min, cut, ← take_eq_take_min]
        refine map_congr_left fun r member => pushedRow_eq ?_ _
        exact source.grid_rows r (mem_of_mem_drop (mem_of_mem_take member))
      obtain ⟨rung, holds⟩ := ringPushAll_holds copied shape.ring_length h
      rw [← same]
      exact ⟨⟨rung.rows, rung.cols, rung.cap, rung.length⟩, holds⟩

theorem modifyRow_holds {buf : VtBuf} {log : List Row} (h : buf.Holds log) (row : Int) (f : Row → Row) :
    (buf.modifyRow row f).ringCap = buf.ringCap ∧ (buf.modifyRow row f).Holds log := by
  unfold VtBuf.modifyRow
  split
  · exact ⟨rfl, h⟩
  · exact ⟨rfl, h⟩

theorem kept_new (rows cols scrollback : Nat) : (Logged.new rows cols scrollback).Kept scrollback where
  shape := bufOk_new rows cols scrollback
  widths r member := by cases member
  cap_eq := rfl
  ring := .start scrollback

theorem Logged.Kept.pushed (h : s.Kept cap) {buf : VtBuf} {pushed : List Row} (shape : BufOk s.buf.rows s.buf.cols buf)
    (widths : ∀ r ∈ pushed, RowOk s.buf.cols r) (cap_eq : buf.ringCap = s.buf.ringCap)
    (ring : buf.Holds (s.log ++ pushed)) : Logged.Kept cap ⟨buf, s.log.map (Row.recut buf.cols) ++ pushed⟩ where
  shape := { shape with
    rows_eq := rfl
    cols_eq := rfl
    grid_length := shape.grid_length.trans shape.rows_eq.symm
    grid_rows := fun r member => (shape.grid_rows r member).trans shape.cols_eq.symm
    ring_rows := fun r member => (shape.ring_rows r member).trans shape.cols_eq.symm }
  widths := by
    rw [shape.cols_eq, recut_same h.widths]
    intro r member
    rcases mem_append.mp member with old | new
    · exact h.widths r old
    · exact widths r new
  cap_eq := cap_eq.trans h.cap_eq
  ring := by
    rw [shape.cols_eq, recut_same h.widths]
    exact ring

theorem Logged.Kept.resize (h : s.Kept cap) (rows cols : Nat) : (s.step (.resize rows cols)).Kept cap where
  shape := h.shape.resize rows cols
  widths r member := by
    rcases mem_append.mp member with old | none
    · obtain ⟨r', -, rfl⟩ := mem_map.mp old
      exact rowOk_recut cols r'
    · cases none
  cap_eq := h.cap_eq
  ring := by
    have same : s.buf.ring.map (Option.map fun r => if cols ≠ s.buf.cols then rowResize s.buf.cols cols r else r) =
        s.buf.ring.map (Option.map (Row.recut cols)) := by
      refine map_congr_left fun slot member => ?_
      cases slot with
      | none => rfl
      | some r => exact congrArg some (rowResize_eq (h.shape.ring_rows r member) cols)
    have mapped := h.ring.map (Row.recut cols)
    rw [← same] at mapped
    show VtBuf.Holds (s.buf.resize rows cols) (s.log.map (Row.recut cols) ++ [])
    rw [append_nil]
    exact mapped

theorem step_kept (h : s.Kept cap) (op : BufOp) (sized : op.Sized) : (s.step op).Kept cap := by
  cases op with
  | scroll top bottom count bg =>
    obtain ⟨rung, holds⟩ := scroll_holds h.shape h.ring top bottom count bg
    refine h.pushed (h.shape.scroll top bottom count bg) (fun r member => ?_) rung.cap holds
    have left : r ∈ s.buf.leaving top bottom count := member
    unfold VtBuf.leaving at left
    split at left
    · exact h.shape.grid_rows r (mem_of_mem_take (mem_of_mem_take left))
    · cases left
  | pushRows src start count =>
    obtain ⟨rung, holds⟩ := pushRows_holds h.shape sized h.ring start count
    refine h.pushed (h.shape.pushRows sized start count) (fun r member => ?_) rung.cap holds
    obtain ⟨r', -, rfl⟩ := mem_map.mp member
    simp only [RowOk, Row.copyTo, fitCells, length_append, length_take, length_replicate]
    omega
  | resize rows cols => exact h.resize rows cols
  | draw row col c wrapped dirty =>
    obtain ⟨cap_eq, holds⟩ := modifyRow_holds h.ring row fun r => { r.setCell col c with wrapped := wrapped, dirty := dirty }
    rw [← append_nil s.log] at holds
    exact h.pushed (h.shape.modifyRow row fun r shape => shape.setCell col c) (fun r member => by cases member) cap_eq holds

end Steps

section Reading

variable {cap : Nat} {s : Logged} (h : s.Kept cap)
include h

theorem length_recent_log : (recent s.buf.ringCap s.log).length = s.buf.ringLen := by
  rw [length_recent, h.ring.len_eq, h.shape.ring_length]

theorem historyRow_eq (line : Nat) : s.buf.historyRow line = s.lines[line]? := by
  have length := length_recent_log h
  unfold VtBuf.historyRow Logged.lines
  rw [if_neg (by omega)]
  split
  · rename_i old
    extract_lets idx
    have within : line < s.buf.ringLen := by omega
    have le := h.shape.ringLen_le
    have place : idx.toNat = (s.buf.ringHead + (s.buf.ring.length - s.buf.ringLen) + line) % s.buf.ring.length := by
      rw [h.shape.ring_length]
      have sum : (s.buf.ringHead + -(s.buf.ringLen - line) + s.buf.ringCap : Int) =
          ((s.buf.ringHead + (s.buf.ringCap - s.buf.ringLen) + line : Nat) : Int) := by
        omega
      unfold idx
      rw [sum, ← Int.natCast_mod, Int.toNat_natCast]
    rw [place, h.ring.read within, h.shape.ring_length, getElem?_append_left (by omega)]
    cases (recent s.buf.ringCap s.log)[line]? <;> rfl
  · rename_i past
    rw [getElem?_append_right (by omega), length]
    have place : ((line : Int) - s.buf.ringLen).toNat = line - s.buf.ringLen := by omega
    split
    · rw [place]
    · rename_i below
      rw [getElem?_eq_none]
      rw [h.shape.grid_length]
      omega

theorem lines_width {line r} (found : s.buf.historyRow line = some r) : RowOk s.buf.cols r := by
  have nonneg : 0 ≤ line := by
    by_contra negative
    rw [VtBuf.historyRow, if_pos (by omega)] at found
    cases found
  obtain ⟨n, rfl⟩ := Int.eq_ofNat_of_zero_le nonneg
  rw [historyRow_eq h] at found
  rcases mem_append.mp (mem_of_getElem? found) with old | visible
  · exact h.widths r (mem_of_mem_drop old)
  · exact h.shape.grid_rows r visible

theorem copiedRow_eq {dst r} (shape : RowOk dst.cols r) (line : Int) :
    copiedRow dst s.buf (s.buf.historyRow line) r = r.showing dst.cols (s.buf.historyRow line) := by
  have length : r.cells.length = dst.cols := shape
  have width : ∀ sr, s.buf.historyRow line = some sr → sr.cells.length = s.buf.cols := fun _ found => lines_width h found
  unfold copiedRow Row.showing
  extract_lets copied
  congr 1
  refine ext_getElem? fun j => ?_
  rw [getElem?_mapIdx, fitCells]
  cases found : s.buf.historyRow line with
  | none =>
    simp only [map_none, getD_none, take_nil, nil_append, length_nil, Nat.sub_zero]
    grind
  | some sr =>
    have source := width sr found
    simp only [map_some, getD_some]
    grind

theorem copyScrollback_eq (count : Nat) {dst} (shape : BufOk dst.rows dst.cols dst) (first : Nat) (offset : Int) :
    dst.copyScrollback s.buf first offset count =
      { dst with
        grid := dst.grid.mapIdx fun i r =>
          if first ≤ i ∧ i < first + count then r.showing dst.cols (s.buf.historyRow (offset + (i - first : Nat))) else r } := by
  have height := shape.grid_length
  induction count generalizing dst first offset with
  | zero =>
    unfold VtBuf.copyScrollback
    have same : (dst.grid.mapIdx fun i r =>
        if first ≤ i ∧ i < first + 0 then r.showing dst.cols (s.buf.historyRow (offset + (i - first : Nat))) else r) =
        dst.grid := by
      refine ext_getElem? fun i => ?_
      grind
    rw [same]
  | succ count ih =>
    unfold VtBuf.copyScrollback
    split
    · -- the destination has no such row, so the loop stops
      rename_i below
      have same : (dst.grid.mapIdx fun i r =>
          if first ≤ i ∧ i < first + (count + 1) then r.showing dst.cols (s.buf.historyRow (offset + (i - first : Nat)))
          else r) = dst.grid := by
        refine ext_getElem? fun i => ?_
        grind
      rw [same]
    · rename_i inside
      have here : ∀ r, RowOk dst.cols r →
          copiedRow dst s.buf (s.buf.historyRow offset) r = r.showing dst.cols (s.buf.historyRow offset) :=
        fun r ok => copiedRow_eq h ok offset
      have wide : ∀ r, RowOk dst.cols r → RowOk dst.cols (copiedRow dst s.buf (s.buf.historyRow offset) r) := by
        intro r ok
        rw [RowOk, copiedRow, length_mapIdx]
        exact ok
      have next := shape.modifyRow first wide
      have changed : dst.modifyRow first (copiedRow dst s.buf (s.buf.historyRow offset)) =
          { dst with grid := dst.grid.modify first (copiedRow dst s.buf (s.buf.historyRow offset)) } := by
        unfold VtBuf.modifyRow
        rw [if_neg inside]
        rfl
      rw [changed] at next ⊢
      have rest := ih next (first + 1) (offset + 1) next.grid_length
      rw [← Nat.cast_succ, rest]
      congr 1
      refine ext_getElem? fun i => ?_
      rw [getElem?_mapIdx, getElem?_mapIdx, getElem?_modify]
      cases found : dst.grid[i]? with
      | none => rfl
      | some r =>
        have ok := shape.grid_rows r (mem_of_getElem? found)
        by_cases this : first = i
        · subst this
          simp [here r ok]
        · have line : offset + 1 + ((i - (first + 1) : Nat) : Int) = offset + ((i - first : Nat) : Int) ∨ i < first + 1 := by
            omega
          grind

end Reading

def Logged.shownOn (s : Logged) (dst : VtBuf) (offset : Int) (count : Nat) : VtBuf :=
  { dst with
    grid := dst.grid.mapIdx fun i r =>
      if i < count then r.showing dst.cols (if 0 ≤ offset + i then s.lines[(offset + i).toNat]? else none) else r }

/-- What the history is for, in one state: it reads as the list, and rows of it are copied as the list has them. -/
structure Logged.ReadsAsList (s : Logged) : Prop where
  rows : ∀ line : Nat, s.buf.historyRow line = s.lines[line]?
  before : ∀ line : Int, line < 0 → s.buf.historyRow line = none
  copied : ∀ dst : VtBuf, BufOk dst.rows dst.cols dst → ∀ (offset : Int) (count : Nat),
    dst.copyScrollback s.buf 0 offset count = s.shownOn dst offset count

theorem Logged.Kept.readsAsList {cap : Nat} {s : Logged} (h : s.Kept cap) : s.ReadsAsList where
  rows := historyRow_eq h
  before line negative := if_pos negative
  copied dst shape offset count := by
    have copied := copyScrollback_eq h count shape 0 offset
    rw [Nat.cast_zero] at copied
    rw [copied, Logged.shownOn]
    congr 1
    refine congrArg (fun f => dst.grid.mapIdx f) (funext fun i => funext fun r => ?_)
    by_cases named : i < count
    · rw [if_pos ⟨Nat.zero_le i, by omega⟩, if_pos named, Nat.sub_zero]
      split
      · rename_i inside
        rw [← historyRow_eq h, Int.toNat_of_nonneg inside]
      · rename_i outside
        have none : s.buf.historyRow (offset + i) = none := if_pos (by omega)
        rw [none]
    · rw [if_neg named, if_neg (by omega)]

/-- **Scrollback is a bounded list**: after any operations on a new buffer, the history is the last rows pushed, as
many as the ring has room for, and then the screen. -/
theorem run_reads_as_list (rows cols scrollback : Nat) (ops : List BufOp) (sized : ∀ op ∈ ops, op.Sized) :
    (ops.foldl Logged.step (Logged.new rows cols scrollback)).ReadsAsList ∧
      (ops.foldl Logged.step (Logged.new rows cols scrollback)).buf.ringCap = scrollback := by
  have kept : (ops.foldl Logged.step (Logged.new rows cols scrollback)).Kept scrollback :=
    foldlRecOn ops Logged.step (kept_new rows cols scrollback) fun s h op member => step_kept h op (sized op member)
  exact ⟨kept.readsAsList, kept.cap_eq⟩

def narrowed : List BufOp :=
  [.draw 0 0 ⟨0x61, {}, 1⟩ false true, .scroll 0 2 1 .default, .resize 2 1, .scroll 0 2 5 .default]

theorem narrowed_reads_as_list : (narrowed.foldl Logged.step (Logged.new 2 3 2)).ReadsAsList ∧
      (narrowed.foldl Logged.step (Logged.new 2 3 2)).buf.ringCap = 2 := by
  refine run_reads_as_list 2 3 2 narrowed fun op member => ?_
  fin_cases member <;> simp [BufOp.Sized]

end Lumimux.Vt
