import Mathlib.Data.List.ReduceOption
import Lumimux.Vt.Invariant
import Lumimux.Vt.Pairs
import Lumimux.Vt.Quiet

/-!
# Properties of every line

`VtState.All P`: every line of every buffer has `P`. Scrolling, clearing, switching screens and resizing keep wide
characters whole.
-/

namespace Lumimux.Vt
open Lib List Option

def VtBuf.lines (b : VtBuf) : List Row := b.grid ++ b.ring.reduceOption

def VtBuf.All (P : List Cell → Prop) (b : VtBuf) : Prop := ∀ r ∈ b.lines, P r.cells

instance (P : List Cell → Prop) [DecidablePred P] (b : VtBuf) : Decidable (b.All P) :=
  inferInstanceAs (Decidable (∀ r ∈ b.lines, P r.cells))

theorem VtBuf.mem_lines {b : VtBuf} {r : Row} : r ∈ b.lines ↔ r ∈ b.grid ∨ some r ∈ b.ring := by
  rw [VtBuf.lines, mem_append, reduceOption_mem_iff]

theorem whole_blank (n : Nat) (bg : Color) : Whole (replicate n (Cell.erase bg)) :=
  whole_of_single fun c member => by rw [eq_of_mem_replicate member]; rfl

theorem whole_clear (n : Nat) : Whole (replicate n Cell.clear) :=
  whole_of_single fun c member => by rw [eq_of_mem_replicate member]; rfl

namespace VtBuf.All

variable {P : List Cell → Prop} {b : VtBuf}

section
variable (h : b.All P)
include h

theorem grid {r : Row} (member : r ∈ b.grid) : P r.cells := h r (mem_lines.mpr (.inl member))

theorem of_grid {grid : List Row} (shape : ∀ r ∈ grid, P r.cells) : { b with grid := grid }.All P := by
  intro r member
  rcases mem_lines.mp member with inGrid | inRing
  · exact shape r inGrid
  · exact h r (mem_lines.mpr (.inr inRing))

theorem row {row r} (found : b.row? row = some r) : P r.cells := by
  unfold VtBuf.row? at found
  split at found
  · cases found
  · exact h.grid (mem_of_getElem? found)

theorem modifyRow {row} {f : Row → Row} (keeps : ∀ r, b.row? row = some r → P (f r).cells) : (b.modifyRow row f).All P := by
  unfold VtBuf.modifyRow
  split
  · exact h
  · rename_i inside
    refine h.of_grid fun r member => ?_
    obtain ⟨i, bound, rfl⟩ := getElem_of_mem member
    rw [length_modify] at bound
    rw [getElem_modify]
    split
    · rename_i same
      refine keeps _ ?_
      subst same
      rw [VtBuf.row?, if_neg inside, getElem?_eq_getElem bound]
    · exact h.grid (getElem_mem _)

theorem ringPush {r : Row} (shape : P r.cells) : (b.ringPush r).All P := by
  unfold VtBuf.ringPush
  split
  · exact h
  · intro r' member
    rcases mem_lines.mp member with inGrid | inRing
    · exact h.grid inGrid
    · rcases mem_or_eq_of_mem_set inRing with old | new
      · exact h r' (mem_lines.mpr (.inr old))
      · cases new
        exact shape

theorem ringPushAll {pushed : List Row} (shape : ∀ r ∈ pushed, P r.cells) : (pushed.foldl VtBuf.ringPush b).All P :=
  foldlRecOn pushed VtBuf.ringPush h fun _ all r member => all.ringPush (shape r member)

theorem scroll (top bottom count : Int) {bg} (blank : P (rowAllocBg b.cols bg).cells) :
    (b.scroll top bottom count bg).All P := by
  unfold VtBuf.scroll
  extract_lets top' bottom' t bo n blank' b'
  split
  · exact h
  · have same : b'.All P := h
    split
    · have pushed : (if t = 0 then ((b'.grid.drop t).take n).foldl VtBuf.ringPush b' else b').All P := by
        split
        · exact same.ringPushAll fun r member => h.grid (mem_of_mem_drop (mem_of_mem_take member))
        · exact same
      exact pushed.of_grid (@dirtyRows_rows _ _ _ (P ·.cells) (fun _ => id) (scrolledUp_rows (fun _ => h.grid) blank))
    · exact same.of_grid (@dirtyRows_rows _ _ _ (P ·.cells) (fun _ => id) (scrolledDown_rows (fun _ => h.grid) blank))

end

theorem clearRows (h : b.All Whole) (start stop : Int) (bg : Color) : (b.clearRows start stop bg).All Whole := by
  refine h.of_grid fun r member => ?_
  obtain ⟨i, bound, rfl⟩ := mem_mapIdx.mp member
  split
  · rw [map_const']
    exact whole_blank _ bg
  · exact h.grid (getElem_mem bound)

theorem pushRows (h : b.All P) {src : VtBuf} (source : src.All P) {rows cols : Nat} (shape : BufOk rows cols src)
    (same : b.cols = cols) (start count : Int) : (b.pushRows src start count).All P := by
  unfold VtBuf.pushRows
  split
  · exact h
  · extract_lets start' n copied
    split
    · exact h
    · refine h.ringPushAll fun r member => ?_
      obtain ⟨r', member', rfl⟩ := mem_map.mp member
      have inGrid := mem_of_mem_drop (mem_of_mem_take member')
      have width : r'.cells.length = cols := shape.grid_rows r' inGrid
      have copy : (pushedRow b.cols src.cols r').cells = r'.cells := by
        rw [pushedRow, same, shape.cols_eq, Nat.min_self, Nat.sub_self, take_of_length_le (Nat.le_of_eq width)]
        exact append_nil _
      rw [copy]
      exact source.grid inGrid

theorem resize (h : b.All Whole) {rows cols newRows newCols : Nat} (shape : BufOk rows cols b)
    (clean : b.All (Clean · newCols)) : (b.resize newRows newCols).All Whole := by
  have grown : ∀ r ∈ b.lines, RowOk cols r →
      Whole (if newCols ≠ b.cols then rowResize b.cols newCols r else r).cells := by
    intro r member ok
    split
    · rw [shape.cols_eq]
      exact (h r member).rowResize ok (clean r member)
    · exact h r member
  intro r member
  rcases mem_lines.mp member with inGrid | inRing
  · rcases mem_append.mp inGrid with old | new
    · obtain ⟨r', was, rfl⟩ := mem_map.mp old
      have present := mem_of_mem_take was
      exact grown r' (mem_lines.mpr (.inl present)) (shape.grid_rows r' present)
    · rw [eq_of_mem_replicate new]
      exact whole_clear newCols
  · obtain ⟨slot, was, same⟩ := mem_map.mp inRing
    obtain ⟨r', rfl, rfl⟩ := map_eq_some_iff.mp same
    exact grown r' (mem_lines.mpr (.inr was)) (shape.ring_rows r' was)

theorem new (rows cols scrollback : Nat) : (VtBuf.new rows cols scrollback).All Whole := by
  intro r member
  rcases mem_lines.mp member with inGrid | inRing
  · rw [eq_of_mem_replicate inGrid]
    exact whole_clear cols
  · cases eq_of_mem_replicate inRing

end VtBuf.All

namespace VtState

def bufs (st : VtState) : List VtBuf := st.primary :: (st.alt.toList ++ st.scrollback.toList)

def All (P : List Cell → Prop) (st : VtState) : Prop := ∀ b ∈ st.bufs, b.All P

instance (P : List Cell → Prop) [DecidablePred P] (st : VtState) : Decidable (st.All P) :=
  inferInstanceAs (Decidable (∀ b ∈ st.bufs, b.All P))

theorem mem_bufs {st : VtState} {b : VtBuf} : b ∈ st.bufs ↔ st.primary = b ∨ st.alt = some b ∨ st.scrollback = some b := by
  simp [bufs, eq_comm]

namespace All

variable {P : List Cell → Prop} {st st' : VtState}

theorem of_screens (h : st.All P) (same : st'.screens = st.screens) : st'.All P := by
  have bufs : st'.bufs = st.bufs := (congrArg (fun sc => sc.primary :: (sc.alt.toList ++ sc.scrollback.toList)) same :)
  rw [All, bufs]
  exact h

theorem buf (h : st.All P) : st.buf.All P := by
  refine h _ (mem_bufs.mpr ?_)
  unfold VtState.buf VtState.target
  cases st.active with
  | primary => exact .inl rfl
  | alt =>
    cases found : st.alt with
    | none => exact .inl rfl
    | some b => exact .inr (.inl rfl)
  | scrollback =>
    cases found : st.scrollback with
    | none => exact .inl rfl
    | some b => exact .inr (.inr rfl)

theorem setBuf (h : st.All P) {b : VtBuf} (shape : b.All P) : (st.setBuf b).All P := by
  have old : ∀ b' ∈ st.bufs, b'.All P := h
  intro b' member
  rcases mem_bufs.mp member with primary | alt | scrollback
  · change (if st.active = .primary then b else st.primary) = b' at primary
    split at primary
    · exact primary ▸ shape
    · exact old b' (mem_bufs.mpr (.inl primary))
  · change (if st.active = .alt then some b else st.alt) = some b' at alt
    split at alt
    · cases alt
      exact shape
    · exact old b' (mem_bufs.mpr (.inr (.inl alt)))
  · change (if st.active = .scrollback then some b else st.scrollback) = some b' at scrollback
    split at scrollback
    · cases scrollback
      exact shape
    · exact old b' (mem_bufs.mpr (.inr (.inr scrollback)))

theorem scroll (h : st.All Whole) (top bottom count : Int) (bg : Color) :
    (st.modifyBuf (·.scroll top bottom count bg)).All Whole :=
  h.setBuf (h.buf.scroll top bottom count (whole_blank _ bg))

theorem clearRows (h : st.All Whole) (start stop : Int) (bg : Color) :
    (st.modifyBuf (·.clearRows start stop bg)).All Whole := h.setBuf (h.buf.clearRows start stop bg)

theorem editRow (h : st.All P) {f : Row → Row} (keeps : ∀ r, st.buf.row? st.cursorRow = some r → P (f r).cells) :
    (st.editRow f).All P := h.setBuf (h.buf.modifyRow keeps)

theorem index (h : st.All Whole) : st.index.All Whole := by
  unfold VtState.index
  split
  · exact h.scroll _ _ _ _
  · split
    · exact h.of_screens rfl
    · exact h

theorem reverseIndex (h : st.All Whole) : st.reverseIndex.All Whole := by
  unfold VtState.reverseIndex
  split
  · exact h.scroll _ _ _ _
  · split
    · exact h.of_screens rfl
    · exact h

theorem altscreenEnter (h : st.All Whole) : st.altscreenEnter.All Whole := by
  unfold VtState.altscreenEnter
  split
  · exact h
  · extract_lets saved modes st₁ rows cols st₂ st₃
    have created : st₂.All Whole := by
      intro b member
      rcases mem_bufs.mp member with primary | alt | scrollback
      · exact h b (mem_bufs.mpr (.inl primary))
      · have made : st.alt.getD (VtBuf.new rows cols 0) = b := Option.some.inj alt
        cases was : st.alt with
        | none =>
          rw [was] at made
          exact made ▸ VtBuf.All.new rows cols 0
        | some b' =>
          rw [was] at made
          exact h b (mem_bufs.mpr (.inr (.inl (was.trans (congrArg some made)))))
      · exact h b (mem_bufs.mpr (.inr (.inr scrollback)))
    have shown : (st₂.setTarget .alt).All Whole := by
      unfold VtState.setTarget
      split
      · exact created
      · exact created
    exact (shown.clearRows 0 rows _).of_screens rfl

theorem altscreenLeave {rows cols : Nat} (ok : st.Ok rows cols) (h : st.All Whole) : st.altscreenLeave.All Whole := by
  unfold VtState.altscreenLeave
  split
  · exact h
  · extract_lets modes st₁ st₂
    have captured : st.altCaptured.All Whole := by
      have primary : st.primary.All Whole := h _ (mem_bufs.mpr (.inl rfl))
      unfold VtState.altCaptured
      split
      · rename_i alt _ found
        exact primary.pushRows (h alt (mem_bufs.mpr (.inr (.inl found)))) (ok.alt alt found) ok.primary.cols_eq _ _
      · exact primary
    have left : st₁.All Whole := by
      intro b member
      rcases mem_bufs.mp member with primary | alt | scrollback
      · exact primary ▸ captured
      · cases alt
      · exact h b (mem_bufs.mpr (.inr (.inr scrollback)))
    have shown : st₂.All Whole := by
      unfold st₂ VtState.setTarget
      split
      · exact left
      · exact left
    exact shown.of_screens rfl

theorem resize {rows cols newRows newCols : Nat} (ok : st.Ok rows cols) (h : st.All Whole)
    (clean : st.All (Clean · newCols)) : (st.resize newRows newCols).All Whole := by
  have each : ∀ {b : VtBuf}, b ∈ st.bufs → BufOk rows cols b → (b.resize newRows newCols).All Whole :=
    fun member shape => (h _ member).resize shape (clean _ member)
  intro b member
  rcases mem_bufs.mp member with primary | alt | scrollback
  · exact primary ▸ each (mem_bufs.mpr (.inl rfl)) ok.primary
  · obtain ⟨b', was, rfl⟩ := map_eq_some_iff.mp (show st.alt.map (·.resize newRows newCols) = some b from alt)
    exact each (mem_bufs.mpr (.inr (.inl was))) (ok.alt b' was)
  · obtain ⟨b', was, rfl⟩ :=
      map_eq_some_iff.mp (show st.scrollback.map (·.resize newRows newCols) = some b from scrollback)
    exact each (mem_bufs.mpr (.inr (.inr was))) (ok.scrollback b' was)

end All

end VtState

end Lumimux.Vt
