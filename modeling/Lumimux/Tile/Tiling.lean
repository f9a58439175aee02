import Lumimux.Tile.Composite
import Lumimux.Tile.Geometry

/-!
# A layout tiles the screen

Every cell of a split is in one child, on the separator or in the other, by where it lies along the direction of the split
(`offset`), if that has three cells.
-/

namespace Lumimux.Libtile
open Lib List

@[mk_iff]
structure Rect.Contains (rect : Rect) (r c : Int) : Prop where
  left : rect.x ≤ c
  right : c < rect.x + rect.w
  top : rect.y ≤ r
  bottom : r < rect.y + rect.h

/-- Every split has three cells in its direction: one for each child and one for the separator. -/
def Roomy : TileNode → Prop
  | .leaf _ => True
  | .branch split a b => 3 ≤ split.rect.extent split.dir ∧ Roomy a ∧ Roomy b

def Holds (rows cols : Int) (n : TileNode) (r c : Int) : Prop :=
  match n with
  | .leaf pane => pane.rect.Contains r c
  | .branch split a _ => (r, c) ∈ separatorLine rows cols split (nodeRect a)

def Owns (rows cols : Int) (n : TileNode) (place : Place) (r c : Int) : Prop :=
  ∃ s, n.get? place = some s ∧ Holds rows cols s r c

theorem splitMid_bounds {size} (room : 3 ≤ size) (splitPos : Int) :
    1 ≤ splitMid size splitPos ∧ splitMid size splitPos ≤ size - 2 := by
  unfold splitMid
  generalize (size * splitPos).tdiv 256 = mid
  dsimp only
  split_ifs <;> omega

section Split

variable {rows cols : Int} {rect : Rect} {split : Split}

theorem one_le_childRect (room : 3 ≤ rect.extent split.dir) (side : Side) :
    1 ≤ (childRect rect split side).extent split.dir := by
  have mid := splitMid_bounds room split.splitPos
  cases dir : split.dir <;> rw [dir] at room mid <;> cases side <;> simp only [childRect, dir, Rect.extent] at mid ⊢ <;>
    omega

theorem childRect_onScreen {screen} (inside : rect.Inside screen) (room : 3 ≤ rect.extent split.dir) (side : Side) :
    (childRect rect split side).Inside screen :=
  (childRect_inside side (one_le_childRect room .a) (one_le_childRect room .b)).trans inside

/-- How far a cell is behind the separator, in the direction of the split. -/
def offset (rect : Rect) (split : Split) (r c : Int) : Int :=
  match split.dir with
  | .v => c - (rect.x + splitMid rect.w split.splitPos)
  | .h => r - (rect.y + splitMid rect.h split.splitPos)

section
variable {r c : Int} (room : 3 ≤ rect.extent split.dir)
include room

theorem contains_a : (childRect rect split .a).Contains r c ↔ rect.Contains r c ∧ offset rect split r c < 0 := by
  have mid := splitMid_bounds room split.splitPos
  cases dir : split.dir <;> simp only [dir, Rect.extent] at mid <;>
    simp only [Rect.contains_iff, childRect, offset, dir] <;> omega

theorem contains_b : (childRect rect split .b).Contains r c ↔ rect.Contains r c ∧ 0 < offset rect split r c := by
  have mid := splitMid_bounds room split.splitPos
  cases dir : split.dir <;> simp only [dir, Rect.extent] at mid <;>
    simp only [Rect.contains_iff, childRect, offset, dir] <;> omega

theorem mem_separator (inside : rect.Inside { w := cols, h := rows }) :
    (r, c) ∈ separatorLine rows cols { split with rect := rect } (childRect rect split .a) ↔
      rect.Contains r c ∧ offset rect split r c = 0 := by
  obtain ⟨left, right, top, bottom⟩ := inside
  dsimp only at left right top bottom
  have mid := splitMid_bounds room split.splitPos
  cases dir : split.dir <;> simp only [dir, Rect.extent] at mid <;>
    simp only [separatorLine, Rect.contains_iff, childRect, offset, dir] <;> rw [if_pos (by omega)] <;>
    simp only [mem_map, mem_intRange, Prod.mk.injEq]
  case v =>
    constructor
    · rintro ⟨i, range, rfl, rfl⟩
      omega
    · intro within
      exact ⟨r, by omega, rfl, by omega⟩
  case h =>
    constructor
    · rintro ⟨i, range, rfl, rfl⟩
      omega
    · intro within
      exact ⟨c, by omega, by omega, rfl⟩

end

end Split

section Tree

variable {rows cols : Int}

variable {n : TileNode} {rect : Rect} {r c : Int} {smap : List SepFlags}

theorem owns_leaf {pane : Pane} {place} (owns : Owns rows cols (tileLayout (.leaf pane) rect) place r c) :
    place = [] ∧ rect.Contains r c := by
  obtain ⟨s, found, holds⟩ := owns
  cases place with
  | nil =>
    rw [Tree.get_nil, Option.some.injEq] at found
    subst found
    exact ⟨rfl, holds⟩
  | cons side place => simp [tileLayout] at found

theorem owns_nil {split : Split} (room : 3 ≤ rect.extent split.dir) (inside : rect.Inside { w := cols, h := rows })
    {a b : TileNode} : Owns rows cols (.branch { split with rect := rect } (tileLayout a (childRect rect split .a)) b) [] r c ↔
      rect.Contains r c ∧ offset rect split r c = 0 := by
  simp only [Owns, Tree.get_nil, Option.some.injEq, exists_eq_left', Holds, nodeRect_layout]
  exact mem_separator room inside

theorem owns_contains (inside : rect.Inside { w := cols, h := rows }) (roomy : Roomy (tileLayout n rect)) {place}
    (owns : Owns rows cols (tileLayout n rect) place r c) : rect.Contains r c := by
  induction n generalizing rect place with
  | leaf pane => exact (owns_leaf owns).2
  | branch split a b iha ihb =>
    rw [layout_branch] at roomy owns
    obtain ⟨room, roomyA, roomyB⟩ := roomy
    rcases place with _ | ⟨_ | _, place⟩
    · exact ((owns_nil room inside).mp owns).1
    · exact ((contains_a room).mp (iha (childRect_onScreen inside room .a) roomyA owns)).1
    · exact ((contains_b room).mp (ihb (childRect_onScreen inside room .b) roomyB owns)).1

theorem owner_unique (inside : rect.Inside { w := cols, h := rows })
    (roomy : Roomy (tileLayout n rect)) (within : rect.Contains r c) :
    ∃! place, Owns rows cols (tileLayout n rect) place r c := by
  induction n generalizing rect with
  | leaf pane => exact ⟨[], ⟨_, rfl, within⟩, fun place owns => (owns_leaf owns).1⟩
  | branch split a b iha ihb =>
    rw [layout_branch] at roomy ⊢
    obtain ⟨room, roomyA, roomyB⟩ := roomy
    have insideA := childRect_onScreen inside room .a
    have insideB := childRect_onScreen inside room .b
    -- an owner below a child has the cell in the child's rectangle, so the three cases exclude each other
    have here := @owns_nil rows cols rect r c split room inside a (tileLayout b (childRect rect split .b))
    have low {place} (owns : Owns rows cols (tileLayout a (childRect rect split .a)) place r c) : offset rect split r c < 0 :=
      ((contains_a room).mp (owns_contains insideA roomyA owns)).2
    have high {place} (owns : Owns rows cols (tileLayout b (childRect rect split .b)) place r c) : 0 < offset rect split r c :=
      ((contains_b room).mp (owns_contains insideB roomyB owns)).2
    rcases Int.lt_trichotomy (offset rect split r c) 0 with before | at_ | behind
    · obtain ⟨place, owns, unique⟩ := iha insideA roomyA ((contains_a room).mpr ⟨within, before⟩)
      refine ⟨.a :: place, owns, ?_⟩
      rintro (_ | ⟨_ | _, other⟩) owns'
      · exact absurd (here.mp owns').2 (by omega)
      · rw [unique other owns']
      · exact absurd (high owns') (by omega)
    · refine ⟨[], here.mpr ⟨within, at_⟩, ?_⟩
      rintro (_ | ⟨_ | _, other⟩) owns'
      · rfl
      · exact absurd (low owns') (by omega)
      · exact absurd (high owns') (by omega)
    · obtain ⟨place, owns, unique⟩ := ihb insideB roomyB ((contains_b room).mpr ⟨within, behind⟩)
      refine ⟨.b :: place, owns, ?_⟩
      rintro (_ | ⟨_ | _, other⟩) owns'
      · exact absurd (here.mp owns').2 (by omega)
      · exact absurd (low owns') (by omega)
      · rw [unique other owns']

/-- A cell of the screen. -/
structure OnScreen (rows cols : Int) (cell : Int × Int) : Prop where
  top : 0 ≤ cell.1
  bottom : cell.1 < rows
  left : 0 ≤ cell.2
  right : cell.2 < cols

theorem OnScreen.index_lt {cell} (on : OnScreen rows cols cell) : (cell.1 * cols + cell.2).toNat < (rows * cols).toNat := by
  obtain ⟨top, bottom, left, right⟩ := on
  have last : (cell.1 + 1) * cols ≤ rows * cols := Int.mul_le_mul_of_nonneg_right (by omega) (by omega)
  have := index_nonneg top left right
  rw [Int.add_mul, Int.one_mul] at last
  omega

theorem marked_markCell (size : smap.length = (rows * cols).toNat) {cell} (on : OnScreen rows cols cell) (dir : SplitDir)
    (focused : Bool) (target : OnScreen rows cols (r, c)) :
    (flagsAt cols (markCell cols dir focused smap cell) r c).marked = true ↔
      (flagsAt cols smap r c).marked = true ∨ cell = (r, c) := by
  simp only [flagsAt, markCell, getD_eq_getElem?_getD, getElem?_modify]
  by_cases here : cell = (r, c)
  · subst here
    have below : (r * cols + c).toNat < smap.length := size ▸ target.index_lt
    simp only [if_true, getElem?_eq_getElem below, Option.map_eq_map, Option.map_some, Option.getD_some,
      SepFlags.marked, SepFlags.mark, or_true, iff_true]
    cases dir <;> simp
  · have apart : ¬ (cell.1 * cols + cell.2).toNat = (r * cols + c).toNat := by
      intro same
      have low := index_nonneg on.top on.left on.right
      have low' : 0 ≤ r * cols + c := index_nonneg target.top target.left target.right
      have equal : cell.1 * cols + cell.2 = r * cols + c := by omega
      obtain ⟨row, col⟩ := index_inj on.left on.right target.left target.right equal
      exact here (Prod.ext row col)
    simp only [apart, here, if_false, Option.map_eq_map, Option.map_id', or_false]

theorem length_markLine (dir : SplitDir) (focused : Bool) (line : List (Int × Int)) (smap : List SepFlags) :
    (line.foldl (markCell cols dir focused) smap).length = smap.length := by
  induction line generalizing smap with
  | nil => rfl
  | cons cell line ih => rw [foldl_cons, ih, markCell, length_modify]

theorem marked_markLine (size : smap.length = (rows * cols).toNat) {line : List (Int × Int)}
    (on : ∀ cell ∈ line, OnScreen rows cols cell) (dir : SplitDir) (focused : Bool) (target : OnScreen rows cols (r, c)) :
    (flagsAt cols (line.foldl (markCell cols dir focused) smap) r c).marked = true ↔
      (flagsAt cols smap r c).marked = true ∨ (r, c) ∈ line := by
  induction line generalizing smap with
  | nil => simp
  | cons cell line ih =>
    have size' : (markCell cols dir focused smap cell).length = (rows * cols).toNat := by
      rw [markCell, length_modify, size]
    have first := marked_markCell size (on cell mem_cons_self) dir focused target
    rw [foldl_cons, ih size' fun other member => on other (mem_cons_of_mem _ member), first, mem_cons,
      or_assoc, eq_comm (a := cell)]

theorem length_markSeparators (focusedId : Nat) (n : TileNode) (smap : List SepFlags) :
    (markSeparators rows cols focusedId smap n).length = smap.length := by
  induction n generalizing smap with
  | leaf pane => rfl
  | branch split a b iha ihb => rw [markSeparators, ihb, iha, length_markLine]

def OnSeparator (rows cols : Int) (n : TileNode) (r c : Int) : Prop :=
  ∃ place split a b, n.get? place = some (.branch split a b) ∧ Holds rows cols (.branch split a b) r c

theorem onSeparator_branch {split : Split} {a b : TileNode} : OnSeparator rows cols (.branch split a b) r c ↔
      Holds rows cols (.branch split a b) r c ∨ OnSeparator rows cols a r c ∨ OnSeparator rows cols b r c := by
  constructor
  · rintro ⟨place, split', a', b', found, holds⟩
    cases place with
    | nil =>
      rw [Tree.get_nil, Option.some.injEq] at found
      exact .inl (found ▸ holds)
    | cons side place =>
      cases side with
      | a => exact .inr (.inl ⟨place, split', a', b', found, holds⟩)
      | b => exact .inr (.inr ⟨place, split', a', b', found, holds⟩)
  · rintro (here | ⟨place, split', a', b', found, holds⟩ | ⟨place, split', a', b', found, holds⟩)
    · exact ⟨[], split, a, b, Tree.get_nil _, here⟩
    · exact ⟨.a :: place, split', a', b', found, holds⟩
    · exact ⟨.b :: place, split', a', b', found, holds⟩

theorem marked_markSeparators (inside : rect.Inside { w := cols, h := rows })
    (roomy : Roomy (tileLayout n rect)) (focusedId : Nat)
    (size : smap.length = (rows * cols).toNat) (target : OnScreen rows cols (r, c)) :
    (flagsAt cols (markSeparators rows cols focusedId smap (tileLayout n rect)) r c).marked = true ↔
      (flagsAt cols smap r c).marked = true ∨ OnSeparator rows cols (tileLayout n rect) r c := by
  induction n generalizing rect smap with
  | leaf pane =>
    have none : ¬ OnSeparator rows cols (tileLayout (.leaf pane) rect) r c := by
      rintro ⟨place, split, a, b, found, -⟩
      cases place <;> simp [tileLayout] at found
    simp only [none, or_false]
    rfl
  | branch split a b iha ihb =>
    rw [layout_branch] at roomy ⊢
    obtain ⟨room, roomyA, roomyB⟩ := roomy
    have on : ∀ cell ∈ separatorLine rows cols { split with rect := rect } (childRect rect split .a),
        OnScreen rows cols cell := by
      intro cell member
      have within : rect.Contains cell.1 cell.2 := ((@mem_separator rows cols rect split _ _ room inside).mp member).1
      obtain ⟨left, right, top, bottom⟩ := inside
      dsimp only at left right top bottom
      have := within.left
      have := within.right
      have := within.top
      have := within.bottom
      exact ⟨by omega, by omega, by omega, by omega⟩
    have insideA : (childRect rect split .a).Inside { w := cols, h := rows } := childRect_onScreen inside room .a
    have insideB : (childRect rect split .b).Inside { w := cols, h := rows } := childRect_onScreen inside room .b
    simp only [markSeparators, nodeRect_layout]
    rw [ihb insideB roomyB (by rw [length_markSeparators, length_markLine, size]),
      iha insideA roomyA (by rw [length_markLine, size]), marked_markLine size on _ _ target, onSeparator_branch]
    simp only [Holds, nodeRect_layout, or_assoc]

end Tree

/-- A cell has one owner, and is marked if that is a separator. -/
structure Tiled (rows cols : Int) (n : TileNode) (focusedId : Nat) (r c : Int) : Prop where
  owner : ∃! place, Owns rows cols n place r c
  marked : (flagsAt cols (markSeparators rows cols focusedId (blankMap rows cols) n) r c).marked = true ↔
    OnSeparator rows cols n r c

/-- **A layout tiles the screen**: if every split has three cells in its direction, each cell of the
screen is in one pane or on the separator of one split. -/
theorem layout_tiles (n : TileNode) (focusedId : Nat) {rows cols : Int}
    (roomy : Roomy (tileLayout n { w := cols, h := rows })) {r c : Int} (on : OnScreen rows cols (r, c)) :
    Tiled rows cols (tileLayout n { w := cols, h := rows }) focusedId r c := by
  have whole : Rect.Inside { w := cols, h := rows } { w := cols, h := rows } :=
    ⟨Int.le_refl _, Int.le_refl _, Int.le_refl _, Int.le_refl _⟩
  obtain ⟨top, bottom, left, right⟩ := on
  dsimp only at top bottom left right
  refine ⟨owner_unique whole roomy ⟨left, by dsimp only; omega, top, by dsimp only; omega⟩, ?_⟩
  have size : (blankMap rows cols).length = (rows * cols).toNat := length_replicate
  have unmarked : (flagsAt cols (blankMap rows cols) r c).marked = false := by
    rw [flagsAt, blankMap, getD_eq_getElem?_getD, getElem?_replicate]
    split <;> rfl
  rw [marked_markSeparators whole roomy focusedId size ⟨top, bottom, left, right⟩, unmarked]
  simp

def sideAndStack : TileNode :=
  .branch { dir := .v, splitPos := 256 } (.leaf { windowId := 1 })
    (.branch { dir := .h, splitPos := 0 } (.leaf { windowId := 2 }) (.leaf { windowId := 3 }))

theorem sideAndStack_tiled : Tiled 5 7 (tileLayout sideAndStack { w := 7, h := 5 }) 2 1 6 :=
  layout_tiles sideAndStack 2 (by simp [Roomy, sideAndStack, tileLayout, splitMid, Rect.extent])
    ⟨by decide, by decide, by decide, by decide⟩

end Lumimux.Libtile
