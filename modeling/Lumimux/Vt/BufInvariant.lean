import Lumimux.Vt.Buf

/-!
# The shape of a buffer

A buffer is a full grid with a ring of rows of the same width; every operation keeps that.
-/

namespace Lumimux.Vt
open List

def RowOk (cols : Nat) (r : Row) : Prop := r.cells.length = cols

/-- A full grid, and ring rows of its width. -/
structure BufOk (rows cols : Nat) (b : VtBuf) : Prop where
  rows_eq : b.rows = rows
  cols_eq : b.cols = cols
  grid_length : b.grid.length = rows
  grid_rows : ∀ r ∈ b.grid, RowOk cols r
  ring_length : b.ring.length = b.ringCap
  ring_rows : ∀ r, some r ∈ b.ring → RowOk cols r
  ringLen_le : b.ringLen ≤ b.ringCap

section Rows

variable {cols : Nat} {r : Row}

theorem rowOk_alloc : RowOk cols (rowAlloc cols) := length_replicate

theorem rowOk_allocBg (bg : Color) : RowOk cols (rowAllocBg cols bg) := length_replicate

section
variable (h : RowOk cols r)
include h

theorem RowOk.resize (newCols : Nat) : RowOk newCols (rowResize cols newCols r) := by
  simp only [RowOk] at h
  simp only [RowOk, rowResize, length_take, length_append, h, length_replicate]
  omega

theorem RowOk.eraseRange (start stop : Int) (bg : Color) : RowOk cols (r.eraseRange start stop bg) := by
  rw [RowOk, Row.eraseRange, length_mapIdx]
  exact h

theorem RowOk.shiftRight (start : Int) (count : Nat) : RowOk cols (r.shiftRight start count) := by
  rw [RowOk, Row.shiftRight, length_mapIdx]
  exact h

theorem RowOk.shiftLeft (start : Int) (count : Nat) : RowOk cols (r.shiftLeft start count) := by
  rw [RowOk, Row.shiftLeft, length_mapIdx]
  exact h

theorem RowOk.setCell (col : Nat) (c : Cell) : RowOk cols (r.setCell col c) := by
  rw [RowOk, Row.setCell, length_set]
  exact h

theorem RowOk.markDirty : RowOk cols r.markDirty := h

theorem RowOk.cleared (c : Cell) : RowOk cols ⟨r.cells.map fun _ => c, false, true⟩ := by
  rw [RowOk, length_map]
  exact h

theorem RowOk.pushedRow (dstCols : Nat) : RowOk dstCols (pushedRow dstCols cols r) := by
  simp only [RowOk] at h
  simp only [RowOk, Vt.pushedRow, length_append, length_take, length_replicate, h]
  omega

end

end Rows

section Grids

variable {top bottom count : Nat} {grid : List Row} {blank : Row} {P : Row → Prop}

theorem dirtyRows_length : (dirtyRows top bottom grid).length = grid.length := length_mapIdx

theorem dirtyRows_rows (marked : ∀ r, P r → P r.markDirty) (h : ∀ r ∈ grid, P r) : ∀ r ∈ dirtyRows top bottom grid, P r := by
  intro r member
  obtain ⟨i, bound, rfl⟩ := mem_mapIdx.mp member
  split
  · exact marked _ (h _ (getElem_mem bound))
  · exact h _ (getElem_mem bound)

theorem scrolledUp_length (order : top + count ≤ bottom) (inside : bottom ≤ grid.length) :
    (scrolledUp grid top bottom count blank).length = grid.length := by
  simp only [scrolledUp, length_append, length_take, length_drop, length_replicate]
  omega

theorem scrolledDown_length (order : top + count ≤ bottom) (inside : bottom ≤ grid.length) :
    (scrolledDown grid top bottom count blank).length = grid.length := by
  simp only [scrolledDown, length_append, length_take, length_drop, length_replicate]
  omega

theorem scrolledUp_rows (h : ∀ r ∈ grid, P r) (fresh : P blank) :
    ∀ r ∈ scrolledUp grid top bottom count blank, P r := by
  intro r member
  simp only [scrolledUp, mem_append, mem_replicate] at member
  rcases member with kept | moved | ⟨-, rfl⟩ | kept
  · exact h r (mem_of_mem_take kept)
  · exact h r (mem_of_mem_drop (mem_of_mem_take moved))
  · exact fresh
  · exact h r (mem_of_mem_drop kept)

theorem scrolledDown_rows (h : ∀ r ∈ grid, P r) (fresh : P blank) :
    ∀ r ∈ scrolledDown grid top bottom count blank, P r := by
  intro r member
  simp only [scrolledDown, mem_append, mem_replicate] at member
  rcases member with kept | ⟨-, rfl⟩ | moved | kept
  · exact h r (mem_of_mem_take kept)
  · exact fresh
  · exact h r (mem_of_mem_drop (mem_of_mem_take moved))
  · exact h r (mem_of_mem_drop kept)

end Grids

section Buffers

variable {rows cols : Nat} {b : VtBuf}

theorem bufOk_new (rows cols scrollback : Nat) : BufOk rows cols (VtBuf.new rows cols scrollback) where
  rows_eq := rfl
  cols_eq := rfl
  grid_length := length_replicate
  grid_rows r member := by
    rw [eq_of_mem_replicate member]
    exact rowOk_alloc
  ring_length := length_replicate
  ring_rows r member := by cases eq_of_mem_replicate member
  ringLen_le := Nat.zero_le _

section
variable (h : BufOk rows cols b)
include h

theorem BufOk.setGrid {grid} (length : grid.length = rows) (shape : ∀ r ∈ grid, RowOk cols r) :
    BufOk rows cols { b with grid := grid } :=
  { h with grid_length := length, grid_rows := shape }

theorem BufOk.modifyRow (row : Int) {f : Row → Row}
    (keeps : ∀ r, RowOk cols r → RowOk cols (f r)) : BufOk rows cols (b.modifyRow row f) := by
  unfold VtBuf.modifyRow
  split
  · exact h
  · refine h.setGrid (by rw [length_modify]; exact h.grid_length) fun r member => ?_
    obtain ⟨i, bound, rfl⟩ := getElem_of_mem member
    rw [getElem_modify]
    split
    · exact keeps _ (h.grid_rows _ (getElem_mem _))
    · exact h.grid_rows _ (getElem_mem _)

theorem BufOk.ringPush {r} (shape : RowOk cols r) : BufOk rows cols (b.ringPush r) := by
  unfold VtBuf.ringPush
  split
  · exact h
  · exact {
      h with
      ring_length := by
        rw [length_set]
        exact h.ring_length
      ring_rows := fun r' member => by
        rcases mem_or_eq_of_mem_set member with old | new
        · exact h.ring_rows r' old
        · cases new
          exact shape
      ringLen_le := by
        have := h.ringLen_le
        show (if b.ringLen < b.ringCap then b.ringLen + 1 else b.ringLen) ≤ b.ringCap
        split <;> omega }

theorem BufOk.ringPushAll {pushed : List Row}
    (shape : ∀ r ∈ pushed, RowOk cols r) : BufOk rows cols (pushed.foldl VtBuf.ringPush b) :=
  foldlRecOn pushed VtBuf.ringPush h fun _ ok r member => ok.ringPush (shape r member)

theorem BufOk.scroll (top bottom count : Int) (bg : Color) : BufOk rows cols (b.scroll top bottom count bg) := by
  have fresh : RowOk cols (rowAllocBg b.cols bg) := by
    rw [h.cols_eq]
    exact rowOk_allocBg bg
  unfold VtBuf.scroll
  extract_lets top' bottom' t bo n blank b'
  split
  · exact h
  · rename_i region
    have inside : bo ≤ b.grid.length := by
      have := h.rows_eq
      have := h.grid_length
      grind
    have order : t + n ≤ bo := by grind
    have ok : BufOk rows cols b' := { h with }
    split
    · -- the departing rows enter the ring before the grid is replaced
      have pushed : BufOk rows cols (if t = 0 then
          ((b'.grid.drop t).take n).foldl VtBuf.ringPush b' else b') := by
        split
        · exact ok.ringPushAll fun r member =>
            h.grid_rows r (mem_of_mem_drop (mem_of_mem_take member))
        · exact ok
      refine pushed.setGrid ?_ (dirtyRows_rows (fun _ => .markDirty) (scrolledUp_rows h.grid_rows fresh))
      rw [dirtyRows_length, scrolledUp_length order inside]
      exact h.grid_length
    · refine ok.setGrid ?_ (dirtyRows_rows (fun _ => .markDirty) (scrolledDown_rows h.grid_rows fresh))
      rw [dirtyRows_length, scrolledDown_length order inside]
      exact h.grid_length

theorem BufOk.clearRows (start stop : Int) (bg : Color) : BufOk rows cols (b.clearRows start stop bg) := by
  refine h.setGrid (by rw [length_mapIdx]; exact h.grid_length) fun r member => ?_
  obtain ⟨i, bound, rfl⟩ := mem_mapIdx.mp member
  have shape := h.grid_rows _ (getElem_mem bound)
  split
  · exact shape.cleared _
  · exact shape

theorem BufOk.pushRows {src : VtBuf} {srcRows srcCols : Nat}
    (source : BufOk srcRows srcCols src) (start count : Int) : BufOk rows cols (b.pushRows src start count) := by
  unfold VtBuf.pushRows
  split
  · exact h
  · extract_lets start' n copied
    split
    · exact h
    · have shape : ∀ r ∈ copied, RowOk cols r := by
        intro r member
        obtain ⟨r', member', rfl⟩ := mem_map.mp member
        rw [h.cols_eq, source.cols_eq]
        exact (source.grid_rows r' (mem_of_mem_drop (mem_of_mem_take member'))).pushedRow cols
      exact { h.ringPushAll shape with }

theorem BufOk.resize (newRows newCols : Nat) : BufOk newRows newCols (b.resize newRows newCols) := by
  have grow (r : Row) (shape : RowOk cols r) :
      RowOk newCols (if newCols ≠ b.cols then rowResize b.cols newCols r else r) := by
    rw [h.cols_eq]
    split
    · exact shape.resize newCols
    · rename_i same
      rw [not_not.mp same]
      exact shape
  exact {
    rows_eq := rfl
    cols_eq := rfl
    grid_length := by
      have := h.grid_length
      have := h.rows_eq
      simp only [VtBuf.resize, length_append, length_map, length_take, length_replicate]
      omega
    grid_rows := fun r member => by
      rcases mem_append.mp member with old | new
      · obtain ⟨r', member', rfl⟩ := mem_map.mp old
        exact grow r' (h.grid_rows r' (mem_of_mem_take member'))
      · rw [eq_of_mem_replicate new]
        exact rowOk_alloc
    ring_length := (length_map _).trans h.ring_length
    ring_rows := fun r member => by
      obtain ⟨slot, member', same⟩ := mem_map.mp member
      obtain ⟨r', rfl, rfl⟩ := Option.map_eq_some_iff.mp same
      exact grow r' (h.ring_rows r' member')
    ringLen_le := h.ringLen_le }

end

end Buffers

end Lumimux.Vt
