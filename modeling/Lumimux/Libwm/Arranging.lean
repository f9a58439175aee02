import Mathlib.Order.Bounds.Basic
import Lumimux.Lib.Grid
import Lumimux.Libwm.Windows

/-!
# The grid

The cells of the grid are shares of the screen, so that the frames tile it as long as a cell has room for the smallest
window.
-/

namespace Lumimux.Libwm

open Lib List

theorem gridCols_least {n : Nat} (some : 1 ≤ n) : IsLeast {g | n ≤ g * g} (Wm.gridCols n) := by
  unfold Wm.gridCols
  cases found : (range (n + 1)).find? fun g => 1 ≤ g ∧ n ≤ g * g with
  | none =>
    have absent := List.find?_eq_none.mp found n (mem_range.mpr (Nat.lt_succ_self n))
    exact absurd (decide_eq_true ⟨some, Nat.le_mul_of_pos_left n some⟩) absent
  | some g =>
    obtain ⟨selected, -, smaller⟩ := List.find?_range_eq_some.mp found
    obtain ⟨pos, square⟩ := of_decide_eq_true selected
    refine ⟨square, fun other holds => ?_⟩
    by_contra below
    have refused := smaller other (Nat.lt_of_not_le below)
    have real : 1 ≤ other := by
      rcases Nat.eq_zero_or_pos other with rfl | pos
      · exact absurd (Nat.le_trans some holds) (by decide)
      · exact pos
    have both : 1 ≤ other ∧ n ≤ other * other := ⟨real, holds⟩
    rw [decide_eq_true both] at refused
    cases refused

theorem framed_iff {F : Type} (win : Window F) (row col : Int) : win.framed row col = true ↔
      (win.y - 1 ≤ row ∧ row < win.y - 1 + (win.h + 2)) ∧ win.x - 1 ≤ col ∧ col < win.x - 1 + (win.w + 2) := by
  simp only [Window.framed, Bool.and_eq_true, decide_eq_true_eq, and_assoc]

namespace Wm

variable {F : Type}

def gridRows (n : Nat) : Nat := (n + gridCols n - 1) / gridCols n

def shown (wm : Wm F) : List (Window F) := wm.windows.filter (!·.minimized)

theorem shown_placeAll (wm : Wm F) (n i : Nat) (wins : List (Window F)) : (wm.placeAll n i wins).filter (!·.minimized) =
      (wins.filter (!·.minimized)).mapIdx fun j win => wm.gridPlace n (i + j) win := by
  induction wins generalizing i with
  | nil => rfl
  | cons win rest ih =>
    rw [placeAll]
    cases minimized : win.minimized with
    | true =>
      rw [if_pos rfl, filter_cons_of_neg (by simp [minimized]), filter_cons_of_neg (by simp [minimized]), ih]
    | false =>
      have stays : (wm.gridPlace n i win).minimized = false := minimized
      rw [if_neg Bool.false_ne_true, filter_cons_of_pos (by simp [stays]), filter_cons_of_pos (by simp [minimized]),
        ih, mapIdx_cons]
      refine congrArg₂ List.cons rfl (mapIdx_eq_mapIdx_iff.mpr fun j inside => ?_)
      rw [Nat.add_right_comm, Nat.add_assoc]

theorem extra_eq (size parts : Nat) : size - size / parts * parts = size % parts := by
  have whole := Nat.div_add_mod' size parts
  omega

theorem cell_start (size parts k : Nat) :
    (k : Int) * (size / parts : Nat) + (min k (size - size / parts * parts) : Nat) + 1 - 1 = shareStart size parts k := by
  rw [extra_eq, shareStart]
  push_cast
  omega

theorem cell_end {size parts : Nat} {smallest : Int} (room : smallest + 2 ≤ (size / parts : Nat)) (k : Nat) :
    (k : Int) * (size / parts : Nat) + (min k (size - size / parts * parts) : Nat) + 1 - 1 +
        (max (((size / parts : Nat) : Int) + (if k < size - size / parts * parts then 1 else 0) - 2) smallest + 2) =
      shareStart size parts (k + 1) := by
  rw [cell_start, shareStart_succ, extra_eq]
  push_cast
  split_ifs <;> omega

theorem framed_gridPlace {wm : Wm F} {n : Nat} (wide : 6 ≤ wm.cols / gridCols n) (high : 4 ≤ wm.rows / gridRows n) (i : Nat)
    (win : Window F) (row col : Int) : (wm.gridPlace n i win).framed row col = true ↔
      (shareStart wm.rows (gridRows n) (i / gridCols n) ≤ row ∧ row < shareStart wm.rows (gridRows n) (i / gridCols n + 1)) ∧
        shareStart wm.cols (gridCols n) (i % gridCols n) ≤ col ∧ col < shareStart wm.cols (gridCols n) (i % gridCols n + 1) := by
  have tall : wmMinHeight + 2 ≤ (wm.rows / gridRows n : Nat) := by
    simp only [wmMinHeight]
    omega
  have broad : wmMinWidth + 2 ≤ (wm.cols / gridCols n : Nat) := by
    simp only [wmMinWidth]
    omega
  rw [framed_iff, ← cell_end tall, ← cell_end broad, ← cell_start, ← cell_start]
  rfl

section Tiling

variable {wm : Wm F} {n : Nat}

theorem gridCols_pos (some : 1 ≤ n) : 0 < gridCols n := by
  have square := (gridCols_least some).1
  rcases Nat.eq_zero_or_pos (gridCols n) with none | pos
  · have square : n ≤ gridCols n * gridCols n := square
    rw [none] at square
    omega
  · exact pos

theorem div_lt_gridRows (some : 1 ≤ n) {i : Nat} (inside : i < n) : i / gridCols n < gridRows n := by
  have pos := gridCols_pos some
  rw [gridRows, Nat.div_lt_iff_lt_mul pos]
  have whole := Nat.div_add_mod' (n + gridCols n - 1) (gridCols n)
  have rest := Nat.mod_lt (n + gridCols n - 1) pos
  omega

theorem gridRows_pos (some : 1 ≤ n) : 0 < gridRows n := Nat.lt_of_le_of_lt (Nat.zero_le _) (div_lt_gridRows some some)

theorem shown_arrangeGrid (some : 1 ≤ wm.shown.length) :
    wm.wmArrangeGrid.1.shown = wm.shown.mapIdx fun i win => wm.gridPlace wm.shown.length i win := by
  have real : (wm.windows.filter (!·.minimized)).length ≠ 0 := Nat.one_le_iff_ne_zero.mp some
  rw [wmArrangeGrid, if_neg real, shown, shown_placeAll]
  simp only [Nat.zero_add]
  rfl

/-- Two frames share no cell. -/
def FramesApart (a b : Window F) : Prop := ∀ row col, ¬ (a.framed row col = true ∧ b.framed row col = true)

theorem gridPlace_apart (wide : 6 ≤ wm.cols / gridCols n) (high : 4 ≤ wm.rows / gridRows n) {i j : Nat} (differ : i ≠ j)
    (a b : Window F) : FramesApart (wm.gridPlace n i a) (wm.gridPlace n j b) := by
  rintro row col ⟨here, there⟩
  obtain ⟨⟨top, bottom⟩, left, right⟩ := (framed_gridPlace wide high i a row col).mp here
  obtain ⟨⟨top', bottom'⟩, left', right'⟩ := (framed_gridPlace wide high j b row col).mp there
  obtain ⟨r, rfl⟩ := Int.eq_ofNat_of_zero_le (Int.le_trans (Int.natCast_nonneg _) top)
  obtain ⟨c, rfl⟩ := Int.eq_ofNat_of_zero_le (Int.le_trans (Int.natCast_nonneg _) left)
  have sameRow := eq_of_mem_shares (Int.ofNat_le.mp top) (Int.ofNat_lt.mp bottom) (Int.ofNat_le.mp top') (Int.ofNat_lt.mp bottom')
  have sameCol := eq_of_mem_shares (Int.ofNat_le.mp left) (Int.ofNat_lt.mp right) (Int.ofNat_le.mp left') (Int.ofNat_lt.mp right')
  refine differ ?_
  rw [← Nat.div_add_mod i (gridCols n), sameRow, sameCol, Nat.div_add_mod]

theorem gridPlace_inside (wide : 6 ≤ wm.cols / gridCols n) (high : 4 ≤ wm.rows / gridRows n) {i : Nat} (placed : i < n)
    (win : Window F) {row col : Int} (framed : (wm.gridPlace n i win).framed row col = true) :
    (0 ≤ row ∧ row < wm.rows) ∧ 0 ≤ col ∧ col < wm.cols := by
  obtain ⟨⟨top, bottom⟩, left, right⟩ := (framed_gridPlace wide high i win row col).mp framed
  have some : 1 ≤ n := by omega
  have lastRow := @shareStart_mono wm.rows (gridRows n) (i / gridCols n + 1) _ (div_lt_gridRows some placed)
  have lastCol := @shareStart_mono wm.cols (gridCols n) (i % gridCols n + 1) _ (Nat.mod_lt i (gridCols_pos some))
  rw [shareStart_parts (gridRows_pos some)] at lastRow
  rw [shareStart_parts (gridCols_pos some)] at lastCol
  omega

end Tiling

/-- **The grid tiles the screen**: the frames of the shown windows are pairwise disjoint and inside the screen, and those of a
complete row of the grid are together the row's share of the screen rows. -/
theorem arrangeGrid_tiles {F : Type} {wm : Wm F} {gcols grows : Nat} (some : 1 ≤ wm.shown.length)
    (least : IsLeast {g | wm.shown.length ≤ g * g} gcols) (ceiling : grows = (wm.shown.length + gcols - 1) / gcols)
    (wide : 6 ≤ wm.cols / gcols) (high : 4 ≤ wm.rows / grows) : let wins := wm.wmArrangeGrid.1.shown
    wins.length = wm.shown.length ∧ wins.Pairwise FramesApart ∧
      (∀ win ∈ wins, ∀ row col, win.framed row col = true → (0 ≤ row ∧ row < wm.rows) ∧ 0 ≤ col ∧ col < wm.cols) ∧
      (shareStart wm.rows grows 0 = 0 ∧ shareStart wm.rows grows grows = wm.rows) ∧
      ∀ g, (g + 1) * gcols ≤ wm.shown.length → ∀ row col,
        (∃ win ∈ (wins.drop (g * gcols)).take gcols, win.framed row col = true) ↔
          (shareStart wm.rows grows g ≤ row ∧ row < shareStart wm.rows grows (g + 1)) ∧ 0 ≤ col ∧ col < wm.cols := by
  obtain rfl : gcols = gridCols wm.shown.length := least.unique (gridCols_least some)
  obtain rfl : grows = gridRows wm.shown.length := ceiling
  intro wins
  have placed : wins = wm.shown.mapIdx fun i win => wm.gridPlace wm.shown.length i win := shown_arrangeGrid some
  have length : wins.length = wm.shown.length := by rw [placed, length_mapIdx]
  refine ⟨length, ?_, ?_, ⟨shareStart_zero _ _, shareStart_parts (gridRows_pos some)⟩, ?_⟩
  · refine pairwise_iff_getElem.mpr fun i j _ _ before => ?_
    simp only [placed, getElem_mapIdx]
    exact gridPlace_apart wide high (Nat.ne_of_lt before) _ _
  · intro win member row col framed
    rw [placed] at member
    obtain ⟨i, inside, rfl⟩ := mem_mapIdx.mp member
    exact gridPlace_inside wide high inside _ framed
  · intro g complete row col
    have pos := gridCols_pos some
    have bound : ∀ c < gridCols wm.shown.length, g * gridCols wm.shown.length + c < wm.shown.length := by
      intro c small
      rw [Nat.succ_mul] at complete
      omega
    have cell : ∀ c < gridCols wm.shown.length, (g * gridCols wm.shown.length + c) / gridCols wm.shown.length = g ∧
        (g * gridCols wm.shown.length + c) % gridCols wm.shown.length = c := by
      intro c small
      rw [Nat.mul_comm, Nat.mul_add_div pos, Nat.mul_add_mod, Nat.div_eq_of_lt small, Nat.mod_eq_of_lt small]
      exact ⟨rfl, rfl⟩
    constructor
    · rintro ⟨win, member, framed⟩
      obtain ⟨c, inside, rfl⟩ := mem_iff_getElem.mp member
      rw [length_take, length_drop] at inside
      have small : c < gridCols wm.shown.length := by omega
      simp only [placed, getElem_take, getElem_drop, getElem_mapIdx] at framed
      have band := ((framed_gridPlace wide high _ _ row col).mp framed).1
      rw [(cell c small).1] at band
      exact ⟨band, (gridPlace_inside wide high (bound c small) _ framed).2⟩
    · rintro ⟨band, left, right⟩
      obtain ⟨x, rfl⟩ := Int.eq_ofNat_of_zero_le left
      obtain ⟨c, small, from_, to_⟩ := exists_share pos (Int.ofNat_lt.mp right)
      have there : g * gridCols wm.shown.length + c < wins.length := length ▸ bound c small
      refine ⟨wins[g * gridCols wm.shown.length + c], ?_, ?_⟩
      · refine mem_iff_getElem.mpr ⟨c, ?_, ?_⟩
        · rw [length_take, length_drop]
          omega
        · rw [getElem_take, getElem_drop]
      · simp only [placed, getElem_mapIdx]
        refine (framed_gridPlace wide high _ _ _ _).mpr ?_
        rw [(cell c small).1, (cell c small).2]
        exact ⟨band, Int.ofNat_le.mpr from_, Int.ofNat_lt.mpr to_⟩

def threeWindows : Wm Int := [1, 2, 3].foldl (fun wm id => (wm.wmAdd id none 0 0 4 2).1) (wmNew Int 25 81)

theorem threeWindows_tiled : threeWindows.wmArrangeGrid.1.shown.Pairwise FramesApart ∧
      ∀ row col, (∃ win ∈ threeWindows.wmArrangeGrid.1.shown.take 2, win.framed row col = true) ↔
        (0 ≤ row ∧ row < 13) ∧ 0 ≤ col ∧ col < 81 := by
  have least : IsLeast {g | threeWindows.shown.length ≤ g * g} 2 := by
    refine ⟨by decide +kernel, fun g square => ?_⟩
    have three : 3 ≤ g * g := square
    by_contra below
    interval_cases g <;> omega
  have tiles := @arrangeGrid_tiles Int threeWindows 2 2 (by decide +kernel) least (by decide +kernel) (by decide +kernel)
    (by decide +kernel)
  exact ⟨tiles.2.1, tiles.2.2.2.2 0 (by decide +kernel)⟩

end Wm

end Lumimux.Libwm
