import Lumimux.Tile.Integrity

/-!
# Panes on the screen

Every pane has a cell when the screen has what the splits need.
-/

namespace Lumimux.Libtile
open Lib List

def splitNeed (splitPos needA needB : Int) : Int :=
  max (max (needA + 2) (needB + 2))
    (max (if needA ≤ 1 then 0 else (256 * needA + splitPos - 1) / splitPos)
      (if needB ≤ 1 then 0 else 256 * needB / (256 - splitPos) + 1))

def need (dir : SplitDir) : TileNode → Int
  | .leaf _ => 1
  | .branch split a b =>
    if split.dir = dir then splitNeed split.splitPos (need dir a) (need dir b) else max (need dir a) (need dir b)

def Positioned : TileNode → Prop
  | .leaf _ => True
  | .branch split a b => (1 ≤ split.splitPos ∧ split.splitPos ≤ 254) ∧ Positioned a ∧ Positioned b

theorem splitNeed_ge (splitPos needA needB : Int) :
    needA + 2 ≤ splitNeed splitPos needA needB ∧ needB + 2 ≤ splitNeed splitPos needA needB := by
  unfold splitNeed
  omega

theorem one_le_need (dir : SplitDir) (n : TileNode) : 1 ≤ need dir n := by
  induction n with
  | leaf pane => exact Int.le_refl 1
  | branch split a b iha ihb =>
    rw [need]
    split
    · have := (splitNeed_ge split.splitPos (need dir a) (need dir b)).1
      omega
    · omega

theorem splitNeed_le_iff {splitPos needA needB size} (low : 1 ≤ splitPos) (high : splitPos ≤ 254) (oneA : 1 ≤ needA)
    (oneB : 1 ≤ needB) : splitNeed splitPos needA needB ≤ size ↔
      needA ≤ splitMid size splitPos ∧ needB ≤ size - splitMid size splitPos - 1 := by
  have partA : (256 * needA + splitPos - 1) / splitPos ≤ size ↔ 256 * needA ≤ size * splitPos := by
    rw [← Int.lt_add_one_iff, Int.ediv_lt_iff_lt_mul (by omega), Int.add_mul]
    omega
  have partB : 256 * needB / (256 - splitPos) + 1 ≤ size ↔ size * splitPos < (size - needB) * 256 := by
    rw [Int.add_one_le_iff, Int.ediv_lt_iff_lt_mul (by omega), Int.mul_sub]
    omega
  unfold splitNeed splitMid
  by_cases small : size < 3
  · constructor
    · intro h
      omega
    · intro h
      dsimp only at h
      split_ifs at h <;> omega
  · have positive : 0 ≤ size * splitPos := Int.mul_nonneg (by omega) (by omega)
    rw [Int.tdiv_eq_ediv_of_nonneg positive]
    generalize size * splitPos = product at partA partB positive
    generalize (256 * needA + splitPos - 1) / splitPos = leastA at partA
    generalize 256 * needB / (256 - splitPos) = leastB at partB
    constructor
    · intro h
      have hA : needA ≤ 1 ∨ 256 * needA ≤ product := by
        rw [← partA]
        split_ifs at h <;> omega
      have hB : needB ≤ 1 ∨ product < (size - needB) * 256 := by
        rw [← partB]
        split_ifs at h <;> omega
      dsimp only
      split_ifs <;> omega
    · rintro ⟨hA, hB⟩
      have leastA_le : needA ≤ 1 ∨ leastA ≤ size := by
        rw [partA]
        dsimp only at hA
        split_ifs at hA <;> omega
      have leastB_le : needB ≤ 1 ∨ leastB + 1 ≤ size := by
        rw [partB]
        dsimp only at hB
        split_ifs at hB <;> omega
      have sizes : needA + 2 ≤ size ∧ needB + 2 ≤ size := by
        dsimp only at hA hB
        split_ifs at hA hB <;> omega
      split_ifs <;> omega

def childRect (rect : Rect) (split : Split) (side : Side) : Rect :=
  match split.dir, side with
  | .v, .a => { rect with w := splitMid rect.w split.splitPos }
  | .v, .b =>
    { rect with x := rect.x + splitMid rect.w split.splitPos + 1, w := rect.w - splitMid rect.w split.splitPos - 1 }
  | .h, .a => { rect with h := splitMid rect.h split.splitPos }
  | .h, .b =>
    { rect with y := rect.y + splitMid rect.h split.splitPos + 1, h := rect.h - splitMid rect.h split.splitPos - 1 }

theorem layout_branch (split : Split) (a b : TileNode) (rect : Rect) : tileLayout (.branch split a b) rect =
      .branch { split with rect := rect } (tileLayout a (childRect rect split .a)) (tileLayout b (childRect rect split .b)) := by
  rw [tileLayout]
  unfold childRect
  cases split.dir <;> rfl

@[simp] theorem nodeRect_layout (n : TileNode) (rect : Rect) : nodeRect (tileLayout n rect) = rect := by
  cases n with
  | leaf pane => rfl
  | branch split a b => rw [layout_branch]; rfl

theorem layout_layout (n : TileNode) (rect rect' : Rect) : tileLayout (tileLayout n rect) rect' = tileLayout n rect' := by
  induction n generalizing rect rect' with
  | leaf pane => rfl
  | branch split a b iha ihb =>
    rw [layout_branch, layout_branch, layout_branch, iha, ihb]
    rfl

variable {n s : TileNode} {rect : Rect} {place : Place} {split : Split}

theorem layout_get (found : (tileLayout n rect).get? place = some s) :
    ∃ s', n.get? place = some s' ∧ s = tileLayout s' (nodeRect s) := by
  induction place generalizing n rect with
  | nil =>
    rw [Tree.get_nil, Option.some.injEq] at found
    exact ⟨n, Tree.get_nil n, by rw [← found, nodeRect_layout]⟩
  | cons side place ih =>
    cases n with
    | leaf pane => rw [tileLayout, Tree.get_leaf_cons] at found; cases found
    | branch split a b =>
      rw [layout_branch] at found
      cases side with
      | a => exact ih found
      | b => exact ih found

theorem layout_replace {new : TileNode} (found : (tileLayout n rect).get? place = some s) :
    tileLayout ((tileLayout n rect).replace place new) rect =
      (tileLayout n rect).replace place (tileLayout new (nodeRect s)) := by
  induction place generalizing n rect with
  | nil =>
    rw [Tree.get_nil, Option.some.injEq] at found
    rw [Tree.replace_nil, Tree.replace_nil, ← found, nodeRect_layout]
  | cons side place ih =>
    cases n with
    | leaf pane => rw [tileLayout, Tree.get_leaf_cons] at found; cases found
    | branch split a b =>
      rw [layout_branch] at found ⊢
      cases side with
      | a =>
        rw [Tree.replace, layout_branch]
        refine congrArg₂ (Tree.branch _) (ih found) ?_
        exact layout_layout ..
      | b =>
        rw [Tree.replace, layout_branch]
        refine congrArg₂ (Tree.branch _) ?_ (ih found)
        exact layout_layout ..

@[simp] theorem positioned_layout (n : TileNode) (rect : Rect) : Positioned (tileLayout n rect) ↔ Positioned n := by
  induction n generalizing rect with
  | leaf pane => exact Iff.rfl
  | branch split a b iha ihb => rw [layout_branch, Positioned, Positioned, iha, ihb]

theorem Positioned.get (positioned : Positioned n) (found : n.get? place = some s) : Positioned s := by
  induction place generalizing n with
  | nil =>
    rw [Tree.get_nil, Option.some.injEq] at found
    exact found ▸ positioned
  | cons side place ih =>
    cases n with
    | leaf pane => simp at found
    | branch split a b =>
      cases side with
      | a => exact ih positioned.2.1 found
      | b => exact ih positioned.2.2 found

theorem Positioned.replace {new} (positioned : Positioned n) (fresh : Positioned new) : Positioned (n.replace place new) := by
  induction place generalizing n with
  | nil => rwa [Tree.replace_nil]
  | cons side place ih =>
    cases n with
    | leaf pane => cases side <;> exact positioned
    | branch split a b =>
      cases side with
      | a => exact ⟨positioned.1, ih positioned.2.1, positioned.2.2⟩
      | b => exact ⟨positioned.1, positioned.2.1, ih positioned.2.2⟩

theorem layout_extent_iff (dir : SplitDir) (positioned : Positioned n) (rect : Rect) :
    (∀ pane ∈ (tileLayout n rect).leaves, 1 ≤ pane.rect.extent dir) ↔ need dir n ≤ rect.extent dir := by
  induction n generalizing rect with
  | leaf pane => simp [tileLayout, Tree.leaves, need]
  | branch split a b iha ihb =>
    obtain ⟨⟨low, high⟩, posA, posB⟩ := positioned
    rw [layout_branch, Tree.leaves, forall_mem_append, iha posA, ihb posB, need]
    by_cases same : split.dir = dir
    · rw [if_pos same, splitNeed_le_iff low high (one_le_need dir a) (one_le_need dir b)]
      subst same
      unfold childRect
      cases split.dir <;> rfl
    · rw [if_neg same, Int.max_le]
      unfold childRect
      cases dir <;> cases h : split.dir <;> first | exact absurd h same | rfl

def Rect.Inside (inner outer : Rect) : Prop :=
  outer.x ≤ inner.x ∧ inner.x + inner.w ≤ outer.x + outer.w ∧ outer.y ≤ inner.y ∧ inner.y + inner.h ≤ outer.y + outer.h

theorem Rect.Inside.trans {r s t : Rect} (first : r.Inside s) (second : s.Inside t) : r.Inside t := by
  unfold Rect.Inside at *
  omega

theorem childRect_inside (side : Side)
    (first : 1 ≤ (childRect rect split .a).extent split.dir) (second : 1 ≤ (childRect rect split .b).extent split.dir) :
    (childRect rect split side).Inside rect := by
  unfold childRect Rect.extent at *
  unfold Rect.Inside
  cases h : split.dir <;> cases side <;> simp only [h] at first second ⊢ <;> omega

theorem layout_inside (positioned : Positioned n)
    (fits : ∀ dir, need dir n ≤ rect.extent dir) : ∀ pane ∈ (tileLayout n rect).leaves, pane.rect.Inside rect := by
  induction n generalizing rect with
  | leaf pane => simp [tileLayout, Tree.leaves, Rect.Inside]
  | branch split a b iha ihb =>
    have cells := fun dir => (layout_extent_iff dir positioned rect).mpr (fits dir)
    obtain ⟨-, posA, posB⟩ := positioned
    simp only [layout_branch, Tree.leaves, forall_mem_append] at cells ⊢
    have fitsA := fun dir => (layout_extent_iff dir posA _).mp (cells dir).1
    have fitsB := fun dir => (layout_extent_iff dir posB _).mp (cells dir).2
    have first := Int.le_trans (one_le_need split.dir a) (fitsA split.dir)
    have second := Int.le_trans (one_le_need split.dir b) (fitsB split.dir)
    exact ⟨fun pane member => (iha posA fitsA pane member).trans (childRect_inside .a first second),
      fun pane member => (ihb posB fitsB pane member).trans (childRect_inside .b first second)⟩

namespace Tile

def screen (t : Tile) : Rect := { w := t.cols, h := t.rows }

/-- Every pane has a cell and lies on the screen. -/
def Usable (t : Tile) : Prop :=
  ∀ pane ∈ t.root.leaves, (1 ≤ pane.rect.w ∧ 1 ≤ pane.rect.h) ∧
    (0 ≤ pane.rect.x ∧ pane.rect.x + pane.rect.w ≤ t.cols) ∧ 0 ≤ pane.rect.y ∧ pane.rect.y + pane.rect.h ≤ t.rows

structure Laid (t : Tile) : Prop where
  laid : tileLayout t.root t.screen = t.root
  positioned : Positioned t.root

end Tile

section Splice

variable {t : Tile}

theorem Tile.Usable.cell (usable : t.Usable) {pane} (member : pane ∈ t.root.leaves) (dir : SplitDir) :
    1 ≤ pane.rect.extent dir := by
  obtain ⟨⟨w, h⟩, -⟩ := usable pane member
  cases dir
  · exact h
  · exact w

theorem Tile.Laid.usable_iff (laid : t.Laid) : t.Usable ↔ ∀ dir, need dir t.root ≤ t.screen.extent dir := by
  constructor
  · intro usable dir
    rw [← layout_extent_iff dir laid.positioned, laid.laid]
    exact fun pane member => usable.cell member dir
  · intro fits pane member
    have cells := fun dir => (layout_extent_iff dir laid.positioned t.screen).mpr (fits dir)
    have inside := layout_inside laid.positioned fits
    rw [laid.laid] at cells inside
    obtain ⟨left, right, top, bottom⟩ := inside pane member
    refine ⟨⟨cells .v pane member, cells .h pane member⟩, ⟨left, ?_⟩, top, ?_⟩
    · simpa [Tile.screen] using right
    · simpa [Tile.screen] using bottom

theorem Tile.Laid.fits_at (laid : t.Laid) (usable : t.Usable) {s : TileNode} {place : Place}
    (found : t.root.get? place = some s) (dir : SplitDir) : need dir s ≤ (nodeRect s).extent dir := by
  have positioned := laid.positioned.get found
  have there := found
  rw [← laid.laid] at there
  obtain ⟨s', -, same⟩ := layout_get there
  have again : tileLayout s (nodeRect s) = s := by
    rw [same, nodeRect_layout, layout_layout]
  rw [← layout_extent_iff dir positioned, again]
  intro pane member
  have inTree : pane ∈ t.root.leaves := by
    rw [Tree.leaves_get found]
    exact mem_append_left _ (mem_append_right _ member)
  exact usable.cell inTree dir

theorem Tile.Laid.splice (laid : t.Laid) (usable : t.Usable) {s new : TileNode} {place : Place}
    (found : t.root.get? place = some s) (positioned : Positioned new) (focusedId : Nat) (paneCount : Int) :
    (Tile.relayout { t with
        root := t.root.replace place new, focusedId := focusedId, paneCount := paneCount }).Laid ∧
      ((Tile.relayout { t with
        root := t.root.replace place new, focusedId := focusedId, paneCount := paneCount }).Usable ↔
          ∀ dir, need dir new ≤ (nodeRect s).extent dir) := by
  generalize written : Tile.relayout { t with
    root := t.root.replace place new, focusedId := focusedId, paneCount := paneCount } = t'
  have screen : t'.screen = t.screen := by rw [← written]; rfl
  have relaid : t'.root = t.root.replace place (tileLayout new (nodeRect s)) := by
    have whole : t'.root = tileLayout (t.root.replace place new) t.screen := by rw [← written]; rfl
    rw [whole]
    nth_rewrite 1 [← laid.laid]
    rw [layout_replace (by rw [laid.laid]; exact found), laid.laid]
  have laid' : t'.Laid := by
    constructor
    · rw [← written]
      exact layout_layout ..
    · rw [relaid]
      exact laid.positioned.replace ((positioned_layout _ _).mpr positioned)
  refine ⟨laid', ?_⟩
  have others : ∀ dir, (∀ pane ∈ t.root.before place, 1 ≤ pane.rect.extent dir) ∧
      ∀ pane ∈ t.root.after place, 1 ≤ pane.rect.extent dir := by
    intro dir
    have cells : ∀ pane ∈ t.root.leaves, 1 ≤ pane.rect.extent dir := fun pane member => usable.cell member dir
    rw [Tree.leaves_get found, forall_mem_append, forall_mem_append] at cells
    exact ⟨cells.1.1, cells.2⟩
  rw [laid'.usable_iff]
  refine forall_congr' fun dir => ?_
  rw [← layout_extent_iff dir laid'.positioned, laid'.laid, relaid, Tree.leaves_replace found, forall_mem_append,
    forall_mem_append, layout_extent_iff dir positioned]
  exact ⟨fun h => h.1.2, fun h => ⟨⟨(others dir).1, h⟩, (others dir).2⟩⟩

end Splice

def Tile.movedRoom (t : Tile) (dir : SplitDir) (side : Side) (delta : Int) (place : Place) : Prop :=
  match t.root.get? place with
  | some (.branch split a b) =>
    splitNeed (movedPos split.splitPos (split.rect.extent dir) side delta) (need dir a) (need dir b) ≤
      split.rect.extent dir
  | _ => True

instance (t : Tile) (dir : SplitDir) (side : Side) (delta : Int) (place : Place) :
    Decidable (t.movedRoom dir side delta place) := by
  unfold Tile.movedRoom
  split <;> infer_instance

/-- The condition on a call: a resize that moves a separator leaves room for the splits on both sides. -/
def Tile.KeepsRoom (t : Tile) : Call → Prop
  | .resizePane paneId dr dc delta => delta ≠ 0 →
      ∀ place ∈ t.resizeSplit paneId (wantDir dr) (wantSide dr dc), t.movedRoom (wantDir dr) (wantSide dr dc) delta place
  | _ => True

instance (t : Tile) : (c : Call) → Decidable (t.KeepsRoom c)
  | .split .. => isTrue trivial
  | .close _ => isTrue trivial
  | .setWindow .. => isTrue trivial
  | .resizePane .. => inferInstanceAs (Decidable (_ → ∀ _ ∈ _, _))

theorem movedPos_bounds (splitPos dim : Int) (side : Side) (delta : Int) :
    1 ≤ Tile.movedPos splitPos dim side delta ∧ Tile.movedPos splitPos dim side delta ≤ 254 := by
  unfold Tile.movedPos
  dsimp only
  split_ifs <;> omega

theorem resizeWalk_dir {root a b : TileNode} {dir : SplitDir} {side : Side} {up : List Side}
    (found : Tile.resizeWalk root dir side up = some place) (branch : root.get? place = some (.branch split a b)) :
    split.dir = dir := by
  induction up with
  | nil => cases found
  | cons here up ih =>
    rw [Tile.resizeWalk] at found
    split at found
    · rename_i split' _ _ branch'
      by_cases hit : split'.dir = dir ∧ here = side
      · rw [if_pos hit, Option.some.injEq] at found
        rw [found, branch] at branch'
        cases branch'
        exact hit.1
      · rw [if_neg hit] at found
        exact ih found
    · cases found

theorem resizeSplit_dir {t : Tile} {paneId : Nat} {dir : SplitDir} {side : Side}
    {a b : TileNode} (found : t.resizeSplit paneId dir side = some place)
    (branch : t.root.get? place = some (.branch split a b)) : split.dir = dir := by
  unfold Tile.resizeSplit at found
  cases target : nodeFind paneId t.root with
  | none => simp [target] at found
  | some leaf =>
    rw [target] at found
    cases leaf with
    | nil => cases found
    | cons first rest =>
      cases above : nodeFindLeafParent paneId t.root with
      | none => simp [above] at found
      | some parent =>
        obtain ⟨split', a', b', branch', -⟩ := nodeFindLeafParent_spec above
        simp only [above, branch'] at found
        by_cases hit : split'.dir = dir ∧ parent ++ [side] = first :: rest
        · rw [if_pos hit, Option.some.injEq] at found
          rw [found, branch] at branch'
          cases branch'
          exact hit.1
        · rw [if_neg hit] at found
          exact resizeWalk_dir found branch

section Steps

variable {t : Tile}

theorem split_usable (laid : t.Laid) (usable : t.Usable) {paneId} (agree : t.SearchesAgree paneId) (dir : SplitDir)
    (newId : Nat) (newVt : Option Nat) :
    (t.split paneId dir newId newVt).1.Laid ∧ (t.split paneId dir newId newVt).1.Usable := by
  rcases split_cases t paneId dir newId newVt agree with h | ⟨target, pane, -, leaf, room, h⟩ <;> rw [h]
  · exact ⟨laid, usable⟩
  · have positioned : Positioned (.branch { dir := dir, splitPos := 128 } (.leaf pane)
        (.leaf { windowId := newId, vt := newVt })) := by simp [Positioned]
    obtain ⟨laid', usable'⟩ := laid.splice usable leaf positioned t.focusedId (t.paneCount + 1)
    refine ⟨laid', usable'.mpr fun dir' => ?_⟩
    have cell := laid.fits_at usable leaf dir'
    by_cases same : dir = dir'
    · subst same
      have three : splitNeed 128 1 1 = 3 := by decide
      rw [need, if_pos rfl]
      exact three ▸ room
    · simpa [need, same] using cell

theorem need_child_le (dir : SplitDir) (split : Split) (a b : TileNode) :
    need dir a ≤ need dir (.branch split a b) ∧ need dir b ≤ need dir (.branch split a b) := by
  rw [need]
  split
  · have := splitNeed_ge split.splitPos (need dir a) (need dir b)
    omega
  · omega

section
variable (laid : t.Laid) (usable : t.Usable)
include laid usable

theorem close_usable (paneId : Nat) : (t.close paneId).1.Laid ∧ (t.close paneId).1.Usable := by
  rcases close_cases t paneId with h | ⟨parent, split, a, b, sibling, focusedId, branch, closed, h⟩ <;> rw [h]
  · exact ⟨laid, usable⟩
  · obtain ⟨-, posA, posB⟩ := laid.positioned.get branch
    have positioned : Positioned sibling := by
      rcases closed with ⟨-, rfl⟩ | ⟨-, rfl⟩
      · exact posB
      · exact posA
    obtain ⟨laid', usable'⟩ := laid.splice usable branch positioned focusedId (t.paneCount - 1)
    refine ⟨laid', usable'.mpr fun dir => Int.le_trans ?_ (laid.fits_at usable branch dir)⟩
    rcases closed with ⟨-, rfl⟩ | ⟨-, rfl⟩
    · exact (need_child_le dir split a sibling).2
    · exact (need_child_le dir split sibling b).1

theorem setWindow_usable (paneId windowId : Nat) (vt : Option Nat) :
    (t.setWindow paneId windowId vt).1.Laid ∧ (t.setWindow paneId windowId vt).1.Usable := by
  rcases setWindow_cases t paneId windowId vt with h | ⟨target, pane, -, leaf, h⟩ <;> rw [h]
  · exact ⟨laid, usable⟩
  · have shown : Positioned (.leaf { pane with windowId := windowId, vt := vt }) := trivial
    obtain ⟨laid', usable'⟩ := laid.splice usable leaf shown t.focusedId t.paneCount
    have still : tileLayout (t.root.replace target (.leaf { pane with windowId := windowId, vt := vt })) t.screen =
        t.root.replace target (.leaf { pane with windowId := windowId, vt := vt }) := by
      nth_rewrite 1 [← laid.laid]
      rw [layout_replace (by rw [laid.laid]; exact leaf), laid.laid]
      rfl
    have same : Tile.relayout { t with
        root := t.root.replace target (.leaf { pane with windowId := windowId, vt := vt }) } =
        { t with root := t.root.replace target (.leaf { pane with windowId := windowId, vt := vt }) } :=
      congrArg (fun root : TileNode => { t with root := root }) still
    rw [same] at laid' usable'
    exact ⟨laid', usable'.mpr fun dir => laid.fits_at usable leaf dir⟩

theorem resizePane_usable (paneId : Nat) (dr dc delta : Int) :
    (t.resizePane paneId dr dc delta).1.Laid ∧
      ((t.resizePane paneId dr dc delta).1.Usable ↔ t.KeepsRoom (.resizePane paneId dr dc delta)) := by
  rcases resizePane_cases t paneId dr dc delta with ⟨h, none_moves⟩ | ⟨place, split, a, b, moves, found, branch, h⟩
  · rw [h]
    refine ⟨laid, iff_of_true usable fun moves place found => ?_⟩
    unfold Tile.movedRoom
    split
    · rename_i split a b branch
      have cell := Int.le_trans (one_le_need _ _) (laid.fits_at usable branch (Tile.wantDir dr))
      have empty := none_moves moves place found split a b branch
      exact absurd (Int.le_trans cell empty) (by decide)
    · trivial
  · rw [h]
    have direction := resizeSplit_dir found branch
    obtain ⟨-, posA, posB⟩ := laid.positioned.get branch
    have positioned : Positioned (.branch (Tile.moved split (Tile.wantDir dr) (Tile.wantSide dr dc) delta) a b) :=
      ⟨movedPos_bounds .., posA, posB⟩
    obtain ⟨laid', usable'⟩ := laid.splice usable branch positioned t.focusedId t.paneCount
    refine ⟨laid', usable'.trans ?_⟩
    have room : t.KeepsRoom (.resizePane paneId dr dc delta) ↔
        need (Tile.wantDir dr) (.branch (Tile.moved split (Tile.wantDir dr) (Tile.wantSide dr dc) delta) a b) ≤
          split.rect.extent (Tile.wantDir dr) := by
      have here : (Tile.moved split (Tile.wantDir dr) (Tile.wantSide dr dc) delta).dir = Tile.wantDir dr := direction
      rw [need, if_pos here]
      simp [Tile.KeepsRoom, moves, found, Tile.movedRoom, branch, Tile.moved]
    rw [room]
    constructor
    · exact fun fits => fits _
    · intro fits dir
      by_cases same : dir = Tile.wantDir dr
      · subst same
        exact fits
      · have other : ¬ split.dir = dir := fun h => same (h.symm.trans direction)
        have across := laid.fits_at usable branch dir
        rw [need, if_neg other] at across
        rw [need, if_neg (show ¬ (Tile.moved split (Tile.wantDir dr) (Tile.wantSide dr dc) delta).dir = dir from other)]
        exact across

end

theorem step_usable_iff (t : Tile) (c : Call) (laid : t.Laid) (usable : t.Usable) (agrees : t.Agrees c) :
    (t.step c).Laid ∧ ((t.step c).Usable ↔ t.KeepsRoom c) := by
  cases c with
  | split paneId dir newId newVt =>
    exact (split_usable laid usable agrees dir newId newVt).imp_right fun h => iff_of_true h trivial
  | close paneId => exact (close_usable laid usable paneId).imp_right fun h => iff_of_true h trivial
  | setWindow paneId windowId vt =>
    exact (setWindow_usable laid usable paneId windowId vt).imp_right fun h => iff_of_true h trivial
  | resizePane paneId dr dc delta => exact resizePane_usable laid usable paneId dr dc delta

end Steps

theorem new_usable {rows cols} (some_row : 1 ≤ rows) (some_col : 1 ≤ cols) :
    (Tile.new rows cols).Laid ∧ (Tile.new rows cols).Usable := by
  refine ⟨⟨rfl, trivial⟩, ?_⟩
  intro pane member
  simp only [Tile.new, Tile.relayout, tileLayout, Tree.leaves, mem_singleton] at member
  subst member
  simp [Tile.new, Tile.relayout]
  omega

/-- **Every pane stays usable**: from a screen of at least one cell, in a run whose splits find leaf and
parent together, every pane has a cell and lies on the screen after each call exactly when every resize
leaves the sides of the separator it moves what the splits nested in them need. -/
theorem run_usable_iff {rows cols : Int} (some_row : 1 ≤ rows) (some_col : 1 ≤ cols) (calls : List Call)
    (agrees : Along Tile.step Tile.Agrees (Tile.new rows cols) calls) : (Tile.new rows cols).Usable ∧
      (Along Tile.step (fun t c => (t.step c).Usable) (Tile.new rows cols) calls ↔
        Along Tile.step Tile.KeepsRoom (Tile.new rows cols) calls) := by
  obtain ⟨laid, usable⟩ := new_usable some_row some_col
  refine ⟨usable, agrees.congr_of_invariant (I := fun t => t.Laid ∧ t.Usable) ?_ ?_ ⟨laid, usable⟩⟩
  · intro t c inv agree room
    obtain ⟨laid, kept⟩ := step_usable_iff t c inv.1 inv.2 agree
    exact ⟨laid, kept.mpr room⟩
  · exact fun t c inv agree => (step_usable_iff t c inv.1 inv.2 agree).2

theorem nested_resize_usable : Along Tile.step (fun t c => (t.step c).Usable) (Tile.new 24 80)
      [.split 0 .v 1 none, .split 1 .v 2 none, .resizePane 0 0 1 10] :=
  (run_usable_iff (by decide) (by decide) _ (by decide +kernel)).2.mpr (by decide +kernel)

theorem nested_resize_unusable : ¬ Along Tile.step (fun t c => (t.step c).Usable) (Tile.new 24 80)
      [.split 0 .v 1 none, .split 1 .v 2 none, .resizePane 0 0 1 100] := by
  rintro ⟨-, -, usable, -⟩
  have narrow : ∃ pane ∈ (((((Tile.new 24 80).step (.split 0 .v 1 none)).step (.split 1 .v 2 none)).step
      (.resizePane 0 0 1 100)).root.leaves), pane.rect.w < 1 := by decide +kernel
  obtain ⟨pane, member, narrow⟩ := narrow
  exact absurd (usable pane member).1.1 (by omega)

end Lumimux.Libtile
