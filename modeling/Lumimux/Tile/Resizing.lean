import Lumimux.Tile.Geometry

/-!
# Moving a separator

`tile_resize_pane` turns cells into a fraction of 256, the layout turns it back; both round.
-/

namespace Lumimux.Libtile
open Lib

def within (dim place : Int) : Int :=
  let place := if place < 1 then 1 else place
  if place > dim - 2 then dim - 2 else place

def slip (dim pos m : Int) : Int := (dim * pos % 256 - (256 * m).tmod dim) / 256

def reach (dim pos m : Int) : Int := dim * pos / 256 + m + slip dim pos m

/-- A motion of `m` cells is made exactly: the goal and the place that is reached are the same one, or beyond
the same minimum, and no clamp of the fraction comes before. In a split of at most three cells nothing moves. -/
def Exact (dim pos m : Int) : Prop :=
  let goal := splitMid dim pos + m
  dim ≤ 3 ∨ (goal ≤ 1 ∧ dim < 512 ∧ reach dim pos m ≤ 1) ∨ (dim - 2 ≤ goal ∧ dim ≤ 256 ∧ dim - 2 ≤ reach dim pos m) ∨
    ((1 < goal ∧ goal < dim - 2) ∧
      ((reach dim pos m = goal ∧ dim / 256 ≤ goal ∧ goal ≤ dim * 254 / 256) ∨ (goal = dim / 256 ∧ reach dim pos m < goal) ∨
        (goal = dim * 254 / 256 ∧ goal < reach dim pos m)))
  deriving Decidable

def motion : Side → Int → Int
  | .a, delta => delta
  | .b, delta => -delta

theorem splitMid_eq (dim pos : Int) : splitMid dim pos = within dim (dim * pos / 256) := by
  have small : dim * pos < 0 → (dim * pos).tdiv 256 < 1 ∧ dim * pos / 256 < 1 := by
    intro negative
    have rounded : (dim * pos).tdiv 256 = -((-(dim * pos)) / 256) := by
      rw [← Int.tdiv_eq_ediv_of_nonneg (by omega : 0 ≤ -(dim * pos)), Int.neg_tdiv, Int.neg_neg]
    rw [rounded]
    omega
  unfold splitMid within
  dsimp only
  by_cases negative : dim * pos < 0
  · rw [if_pos (small negative).1, if_pos (small negative).2]
  · rw [Int.tdiv_eq_ediv_of_nonneg (by omega)]

theorem reach_eq (dim pos m : Int) : dim * (pos + (256 * m).tdiv dim) / 256 = reach dim pos m := by
  have whole := Int.mul_tdiv_add_tmod (256 * m) dim
  have product : dim * (pos + (256 * m).tdiv dim) = dim * pos + 256 * m - (256 * m).tmod dim := by
    rw [Int.mul_add]
    omega
  rw [product, reach, slip]
  omega

theorem mul_ediv_mono {dim p q : Int} (pos : 0 ≤ dim) (le : p ≤ q) : dim * p / 256 ≤ dim * q / 256 :=
  Int.ediv_le_ediv (by decide) (Int.mul_le_mul_of_nonneg_left le pos)

theorem movedPos_eq (pos dim : Int) (side : Side) (delta : Int) :
    ∃ p, dim * p / 256 = reach dim pos (motion side delta) ∧ Tile.movedPos pos dim side delta =
      let p := if p < (256 : Int).tdiv dim then (256 : Int).tdiv dim else p
      let p := if p > 256 - (256 : Int).tdiv dim then 256 - (256 : Int).tdiv dim else p
      let p := if p < 1 then 1 else p
      if p > 254 then 254 else p := by
  refine ⟨pos + (256 * motion side delta).tdiv dim, reach_eq dim pos _, ?_⟩
  cases side with
  | a => rw [Tile.movedPos, motion, Int.mul_comm delta 256]
  | b =>
    have opposite : pos - (delta * 256).tdiv dim = pos + (256 * -delta).tdiv dim := by
      rw [Int.mul_comm delta 256, Int.mul_neg, Int.neg_tdiv, Int.sub_eq_add_neg]
    rw [Tile.movedPos, motion]
    dsimp only
    rw [opposite]

theorem cell_fraction {dim : Int} (positive : 0 < dim) :
    0 ≤ dim * (256 : Int).tdiv dim ∧ dim * (256 : Int).tdiv dim ≤ 256 ∧ (256 < dim → (256 : Int).tdiv dim = 0) := by
  rw [Int.tdiv_eq_ediv_of_nonneg (by decide)]
  have low : 0 ≤ 256 / dim := Int.ediv_nonneg (by decide) (by omega)
  exact ⟨Int.mul_nonneg (by omega) low, Int.mul_ediv_self_le (by omega), Int.ediv_eq_zero_of_lt (by decide)⟩

section
variable {dim : Int} (nonneg : 0 ≤ dim) (p q : Int)
include nonneg

theorem ediv_raised : dim * (if p < q then q else p) / 256 = max (dim * q / 256) (dim * p / 256) := by
  have up := @mul_ediv_mono dim p q nonneg
  have down := @mul_ediv_mono dim q p nonneg
  split_ifs <;> omega

theorem ediv_lowered : dim * (if p > q then q else p) / 256 = min (dim * q / 256) (dim * p / 256) := by
  have up := @mul_ediv_mono dim p q nonneg
  have down := @mul_ediv_mono dim q p nonneg
  split_ifs <;> omega

end

theorem splitMid_moved {dim : Int} (room : 4 ≤ dim) (splitPos : Int) (side : Side) (delta : Int) :
    splitMid dim (Tile.movedPos splitPos dim side delta) =
      within dim (max (dim / 256) (min (dim * 254 / 256) (reach dim splitPos (motion side delta)))) := by
  have nonneg : 0 ≤ dim := by omega
  obtain ⟨p, points, moved⟩ := movedPos_eq splitPos dim side delta
  obtain ⟨low, cell, wide⟩ := cell_fraction (by omega : 0 < dim)
  rw [moved, splitMid_eq, ← points]
  dsimp only
  rw [ediv_lowered nonneg, ediv_raised nonneg, ediv_lowered nonneg, ediv_raised nonneg, Int.mul_one, Int.mul_sub]
  by_cases fits : dim ≤ 256
  · -- the fraction of one cell points to the first place or before, that of all but one to the last or behind
    unfold within
    dsimp only
    split_ifs <;> omega
  · -- in a wide split only the fractions 1 and 254 hold the separator back
    rw [wide (by omega), Int.mul_zero]
    congr 1
    omega

theorem within_narrow {dim} (narrow : dim ≤ 3) (place : Int) : within dim place = dim - 2 := by
  unfold within
  dsimp only
  split_ifs <;> omega

theorem exact_iff (dim splitPos : Int) (side : Side) (delta : Int) :
    splitMid dim (Tile.movedPos splitPos dim side delta) = within dim (splitMid dim splitPos + motion side delta) ↔
      Exact dim splitPos (motion side delta) := by
  by_cases room : 4 ≤ dim
  · rw [splitMid_moved room, Exact]
    generalize splitMid dim splitPos + motion side delta = goal
    generalize reach dim splitPos (motion side delta) = there
    unfold within
    dsimp only
    split_ifs <;> omega
  · have narrow : dim ≤ 3 := by omega
    refine iff_of_true ?_ (.inl narrow)
    rw [splitMid_eq, within_narrow narrow, within_narrow narrow]

def Rect.start (rect : Rect) : SplitDir → Int
  | .h => rect.y
  | .v => rect.x

def separatorAt (n : TileNode) (place : Place) : Option Int :=
  match n.get? place with
  | some (.branch split a _) => some ((nodeRect a).start split.dir + (nodeRect a).extent split.dir)
  | _ => none

theorem separatorAt_branch {n a b : TileNode} {split : Split} {place : Place} (found : n.get? place = some (.branch split a b)) :
    separatorAt n place = some ((nodeRect a).start split.dir + (nodeRect a).extent split.dir) := by
  rw [separatorAt, found]

theorem separatorAt_get {n s : TileNode} {place : Place} (found : n.get? place = some s) :
    separatorAt n place = separatorAt s [] := by
  rw [separatorAt, separatorAt, found, Tree.get_nil]

theorem nodeRect_replace {n s new : TileNode} {place : Place} (found : n.get? place = some s) (same : nodeRect new = nodeRect s) :
    nodeRect (n.replace place new) = nodeRect n := by
  cases place with
  | nil =>
    rw [Tree.get_nil, Option.some.injEq] at found
    rw [Tree.replace_nil, same, found]
  | cons side place =>
    cases n with
    | leaf pane => rw [Tree.get_leaf_cons] at found; cases found
    | branch split a b => cases side <;> rfl

theorem separatorAt_replace {n s new : TileNode} {place other : Place} (found : n.get? place = some s)
    (same : nodeRect new = nodeRect s) (outside : ¬ place <+: other) : separatorAt (n.replace place new) other = separatorAt n other := by
  induction place generalizing n other with
  | nil => exact absurd List.nil_prefix outside
  | cons side place ih =>
    cases n with
    | leaf pane => rw [Tree.get_leaf_cons] at found; cases found
    | branch split a b =>
      cases other with
      | nil =>
        cases side with
        | a =>
          have rect : nodeRect (a.replace place new) = nodeRect a := nodeRect_replace found same
          rw [separatorAt_branch (Tree.get_nil _), Tree.replace, separatorAt_branch (Tree.get_nil _), rect]
        | b => rfl
      | cons side' other =>
        have deeper : side = side' → ¬ place <+: other := by
          rintro rfl below
          exact outside (List.cons_prefix_cons.mpr ⟨rfl, below⟩)
        cases side <;> cases side'
        · exact ih found (deeper rfl)
        · rfl
        · rfl
        · exact ih found (deeper rfl)

theorem separator_layout (split : Split) (a b : TileNode) (rect : Rect) : separatorAt (tileLayout (.branch split a b) rect) [] =
      some (rect.start split.dir + splitMid (rect.extent split.dir) split.splitPos) := by
  rw [layout_branch, separatorAt_branch (Tree.get_nil _), nodeRect_layout]
  unfold childRect
  cases dir : split.dir <;> rfl

/-- What a motion of a pane's edge by `delta` cells asks for: the separator of the split at a place is `motion` cells
further on, or as far as both sides keep a cell, and the separators outside of the split stay. -/
structure Follows (t t' : Tile) (place : Place) (rect : Rect) (dir : SplitDir) (m : Int) : Prop where
  moved : ∃ old, separatorAt t.root place = some old ∧
    separatorAt t'.root place = some (rect.start dir + within (rect.extent dir) (old - rect.start dir + m))
  others : ∀ other, ¬ place <+: other → separatorAt t'.root other = separatorAt t.root other

/-- **Moving an edge** of a pane in a laid-out tree: a call that reports a change acts on one split, and does what it was asked
to exactly when the conversion of the cells into a fraction and back does. -/
theorem resize_exact_iff {t : Tile} (laid : tileLayout t.root t.screen = t.root) {paneId : Nat} {dr dc delta : Int}
    (changes : (t.resizePane paneId dr dc delta).2 = true) :
    ∃ place split a b, t.resizeSplit paneId (Tile.wantDir dr) (Tile.wantSide dr dc) = some place ∧
      t.root.get? place = some (.branch split a b) ∧
      (Follows t (t.resizePane paneId dr dc delta).1 place split.rect split.dir (motion (Tile.wantSide dr dc) delta) ↔
        Exact (split.rect.extent split.dir) split.splitPos (motion (Tile.wantSide dr dc) delta)) := by
  rcases resizePane_cases t paneId dr dc delta with ⟨unchanged, -⟩ | ⟨place, split, a, b, -, found, branch, new⟩
  · rw [unchanged] at changes
    cases changes
  · refine ⟨place, split, a, b, found, branch, ?_⟩
    have direction := resizeSplit_dir found branch
    have before : separatorAt t.root place =
        some (split.rect.start split.dir + splitMid (split.rect.extent split.dir) split.splitPos) := by
      obtain ⟨s, same, isLaid⟩ := layout_get (laid.symm ▸ branch)
      obtain rfl := Option.some.inj (branch.symm.trans same)
      rw [separatorAt_get branch, isLaid]
      exact separator_layout split a b split.rect
    have root : (t.resizePane paneId dr dc delta).1.root =
        t.root.replace place (tileLayout (.branch (Tile.moved split (Tile.wantDir dr) (Tile.wantSide dr dc) delta) a b) split.rect) := by
      rw [new]
      have local_ := @layout_replace t.root _ t.screen place
        (.branch (Tile.moved split (Tile.wantDir dr) (Tile.wantSide dr dc) delta) a b) (laid.symm ▸ branch)
      rw [laid] at local_
      exact local_
    have after : separatorAt (t.resizePane paneId dr dc delta).1.root place = some (split.rect.start split.dir +
        splitMid (split.rect.extent split.dir) (Tile.movedPos split.splitPos (split.rect.extent split.dir) (Tile.wantSide dr dc) delta)) := by
      rw [root, separatorAt_get (Tree.get_replace branch _), separator_layout, Tile.moved, direction]
    have exact_ := exact_iff (split.rect.extent split.dir) split.splitPos (Tile.wantSide dr dc) delta
    have cancel : ∀ x, split.rect.start split.dir + x - split.rect.start split.dir = x := fun x => by omega
    constructor
    · intro follows
      obtain ⟨old, isOld, isNew⟩ := follows.moved
      obtain rfl := Option.some.inj (before.symm.trans isOld)
      rw [after, Option.some.injEq, cancel] at isNew
      exact exact_.mp (by omega)
    · intro isExact
      refine ⟨⟨_, before, ?_⟩, fun other outside => ?_⟩
      · rw [after, cancel, exact_.mpr isExact]
      · rw [root]
        exact separatorAt_replace branch (nodeRect_layout _ _) outside

def sideBySide (cols : Int) : Tile := (Tile.new 24 cols).step (.split 0 .v 1 none)

theorem sideBySide_follows : Follows (sideBySide 64) ((sideBySide 64).resizePane 0 0 1 5).1 [] { w := 64, h := 24 } .v 5 ∧
      separatorAt ((sideBySide 64).resizePane 0 0 1 5).1.root [] = some 37 := by
  obtain ⟨place, split, a, b, found, branch, follows_iff⟩ :=
    @resize_exact_iff (sideBySide 64) (by decide +kernel) 0 0 1 5 (by decide +kernel)
  have here : (sideBySide 64).resizeSplit 0 .v .a = some [] := by decide +kernel
  obtain rfl : [] = place := Option.some.inj (here.symm.trans found)
  have shape : (sideBySide 64).root = .branch ⟨.v, 128, ⟨0, 0, 64, 24⟩⟩ (.leaf ⟨0, none, ⟨0, 0, 32, 24⟩⟩)
      (.leaf ⟨1, none, ⟨33, 0, 31, 24⟩⟩) := by decide +kernel
  rw [shape, Tree.get_nil, Option.some.injEq] at branch
  cases branch
  exact ⟨follows_iff.mpr (by decide +kernel), by decide +kernel⟩

theorem sideBySide_stays : ((sideBySide 80).resizePane 0 0 1 1).2 = true ∧
      ¬ Follows (sideBySide 80) ((sideBySide 80).resizePane 0 0 1 1).1 [] { w := 80, h := 24 } .v 1 := by
  refine ⟨by decide +kernel, fun follows => ?_⟩
  obtain ⟨old, isOld, isNew⟩ := follows.moved
  have before : separatorAt (sideBySide 80).root [] = some 40 := by decide +kernel
  have after : separatorAt ((sideBySide 80).resizePane 0 0 1 1).1.root [] = some 40 := by decide +kernel
  obtain rfl := Option.some.inj (before.symm.trans isOld)
  rw [after] at isNew
  exact absurd isNew (by decide)

end Lumimux.Libtile
