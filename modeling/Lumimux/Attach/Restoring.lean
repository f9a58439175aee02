import Lumimux.Attach.Panes

/-!
# Restoring a layout with dead windows

`screen_build_tile_tree` leaves out the panes of dead windows, bottom up; `tile_close` takes one pane out.
-/

namespace Lumimux.Attach
open Lib Libtile Sessdir List

def contents (n : TileNode) : Lib.Tree (SplitDir × Int) (Nat × Option Nat) :=
  n.map (fun split => (split.dir, split.splitPos)) Pane.content

theorem contents_layout (n : TileNode) (rect : Rect) : contents (tileLayout n rect) = contents n := by
  unfold contents
  induction n generalizing rect with
  | leaf pane => rfl
  | branch split a b iha ihb => rw [layout_branch, Lib.Tree.map, Lib.Tree.map, iha, ihb]

def liveWindow (nums : List Int) (cwins : List ClientWindow) (num : Int) : Option (Nat × Option Nat) :=
  let id := layoutPidOf nums num
  (if id ≠ 0 then cwinFind cwins id else none).map fun cw => (id, cw.vt)

/-- A saved layout while all its windows were live, and after some of them died. A window that lives on is the one it
was, under each of its numbers. -/
structure Survives (nums nums' : List Int) (cwins cwins' : List ClientWindow) (tree : LayoutTree) : Prop where
  all : ∀ num ∈ tree.winNums, (liveWindow nums cwins num).isSome
  kept : ∀ num ∈ tree.winNums,
    liveWindow nums' cwins' num = none ∨ liveWindow nums' cwins' num = liveWindow nums cwins num
  whole : ∀ a ∈ tree.winNums, ∀ b ∈ tree.winNums, layoutPidOf nums a = layoutPidOf nums b →
    (liveWindow nums' cwins' a).isSome → (liveWindow nums' cwins' b).isSome
  one : ∃ num ∈ tree.winNums, (liveWindow nums' cwins' num).isSome

def deadIds (nums nums' : List Int) (cwins' : List ClientWindow) (tree : LayoutTree) : List Nat :=
  (tree.winNums.filter fun num => (liveWindow nums' cwins' num).isNone).map (layoutPidOf nums)

def shows (ids : List Nat) (pane : Nat × Option Nat) : Bool := pane.1 ∈ ids

def closeAll (t : Tile) (ids : List Nat) : Tile := ids.foldl (fun t id => (t.close id).1) t

theorem build_leaf (nums : List Int) (cwins : List ClientWindow) (num : Int) :
    (screenBuildTileTree nums cwins (.leaf num)).map contents = (liveWindow nums cwins num).map .leaf := by
  rw [screenBuildTileTree, liveWindow, Option.map_map, Option.map_map]
  rfl

theorem build_split (nums : List Int) (cwins : List ClientWindow) (vertical : Bool) (splitPos : Int) (a b : LayoutTree) :
    (screenBuildTileTree nums cwins (.split vertical splitPos a b)).map contents =
      Lib.Tree.join (if vertical then .v else .h, splitPos) ((screenBuildTileTree nums cwins a).map contents)
        ((screenBuildTileTree nums cwins b).map contents) := by
  rw [screenBuildTileTree]
  cases screenBuildTileTree nums cwins a <;> cases screenBuildTileTree nums cwins b <;> rfl

variable {nums nums' : List Int} {cwins cwins' : List ClientWindow} {tree : LayoutTree}

theorem build_prune {ids} (all : ∀ num ∈ tree.winNums, (liveWindow nums cwins num).isSome)
    (now : ∀ num ∈ tree.winNums, liveWindow nums' cwins' num = if layoutPidOf nums num ∈ ids then none else liveWindow nums cwins num) :
    ∃ full, screenBuildTileTree nums cwins tree = some full ∧
      full.leaves.map Pane.windowId = tree.winNums.map (layoutPidOf nums) ∧
      (screenBuildTileTree nums' cwins' tree).map contents = (contents full).prune (shows ids) := by
  induction tree with
  | leaf num =>
    obtain ⟨window, live⟩ := Option.isSome_iff_exists.mp (all num mem_cons_self)
    have built := build_leaf nums cwins num
    rw [live] at built
    obtain ⟨full, found, same⟩ := Option.map_eq_some_iff.mp built
    have id : window.1 = layoutPidOf nums num := by
      obtain ⟨cw, -, rfl⟩ := Option.map_eq_some_iff.mp live
      rfl
    have leaves := congrArg Lib.Tree.leaves same
    rw [contents, Lib.Tree.leaves_map] at leaves
    refine ⟨full, found, ?_, ?_⟩
    · have ids := congrArg (List.map Prod.fst) leaves
      rw [map_map] at ids
      exact ids.trans (congrArg (fun id => [id]) id)
    · rw [build_leaf, now num mem_cons_self, same, Lib.Tree.prune, shows, id, live]
      by_cases gone : layoutPidOf nums num ∈ ids
      · simp [gone]
      · simp [gone]
  | split vertical splitPos a b iha ihb =>
    obtain ⟨allA, allB⟩ := forall_mem_append.mp all
    obtain ⟨nowA, nowB⟩ := forall_mem_append.mp now
    obtain ⟨fullA, foundA, idsA, pruneA⟩ := iha allA nowA
    obtain ⟨fullB, foundB, idsB, pruneB⟩ := ihb allB nowB
    refine ⟨_, by rw [screenBuildTileTree, foundA, foundB], ?_, ?_⟩
    · rw [Lib.Tree.leaves, map_append, idsA, idsB, LayoutTree.winNums, map_append]
    · rw [build_split, pruneA, pruneB]
      rfl

section Closing

variable {t : Tile} {ids : List Nat} {id : Nat}

theorem prune_of_isLeafOf {n} (leaf : isLeafOf id n = true) (member : id ∈ ids) :
    n.prune (shows ids ∘ Pane.content) = none := by
  obtain ⟨pane, rfl, rfl⟩ := isLeafOf_spec leaf
  exact if_pos (decide_eq_true member)

theorem close_prune (member : id ∈ ids) :
    (contents (t.close id).1.root).prune (shows ids) = (contents t.root).prune (shows ids) := by
  rcases close_cases t id with h | ⟨parent, split, a, b, sibling, focusedId, branch, leaf, h⟩
  · rw [h]
  · rw [h]
    show (contents (tileLayout _ _)).prune _ = _
    rw [contents_layout, contents, contents, Lib.Tree.prune_map, Lib.Tree.prune_map]
    congr 1
    refine Lib.Tree.prune_replace branch ?_
    rw [Lib.Tree.prune]
    rcases leaf with ⟨leaf, rfl⟩ | ⟨leaf, rfl⟩
    · rw [prune_of_isLeafOf leaf member, Lib.Tree.join]
    · rw [prune_of_isLeafOf leaf member]
      cases Lib.Tree.prune (shows ids ∘ Pane.content) sibling <;> rfl

theorem nodeFind_isSome {n pane} (member : pane ∈ n.leaves) : (nodeFind pane.windowId n).isSome := by
  induction n with
  | leaf label =>
    cases mem_singleton.mp member
    rw [nodeFind, if_pos rfl]
    rfl
  | branch split a b iha ihb =>
    rw [nodeFind]
    cases left : nodeFind pane.windowId a with
    | some place => rfl
    | none =>
      rcases mem_append.mp member with inA | inB
      · have found := iha inA
        rw [left] at found
        cases found
      · rw [Option.isSome_map]
        exact ihb inB

theorem close_succeeds (counted : t.paneCount = t.root.leaves.length) (shown : id ∈ t.panes.map Prod.fst)
    (other : ∃ pane ∈ t.panes, pane.1 ≠ id) : (t.close id).2 = true := by
  rw [Tile.panes, map_map] at shown
  obtain ⟨pane, member, rfl⟩ := mem_map.mp shown
  obtain ⟨content, shows, different⟩ := other
  obtain ⟨pane', member', rfl⟩ := mem_map.mp shows
  have several : ¬isLeafOf pane.windowId t.root = true := by
    intro leaf
    obtain ⟨only, root, same⟩ := isLeafOf_spec leaf
    rw [root] at member'
    cases mem_singleton.mp member'
    exact different same
  obtain ⟨place, found⟩ := Option.isSome_iff_exists.mp (nodeFind_isSome member)
  obtain ⟨parent, branch⟩ := Option.isSome_iff_exists.mp ((nodeFindLeafParent_isSome found).resolve_left several)
  obtain ⟨split, a, b, at_parent, -⟩ := nodeFindLeafParent_spec branch
  have many : ¬t.paneCount ≤ 1 := by
    have left := length_pos_of_ne_nil a.leaves_ne_nil
    have right := length_pos_of_ne_nil b.leaves_ne_nil
    rw [counted, Lib.Tree.leaves_get at_parent]
    simp only [Lib.Tree.leaves, length_append]
    omega
  show (t.close pane.windowId).2 = true
  rw [Tile.close, if_neg many, branch]
  simp only [at_parent]

theorem closeAll_prune {order} (counted : t.paneCount = t.root.leaves.length)
    (perm : order.Perm ((t.panes.map Prod.fst).filter (· ∈ ids))) (live : ∃ pane ∈ t.panes, pane.1 ∉ ids) :
    some (contents (closeAll t order).root) = (contents t.root).prune (shows ids) := by
  induction order generalizing t with
  | nil =>
    refine (Lib.Tree.prune_of_forall fun pane member => ?_).symm
    rw [contents, Lib.Tree.leaves_map] at member
    have none := filter_eq_nil_iff.mp (nil_perm.mp perm) pane.1 (mem_map_of_mem member)
    simpa [shows] using none
  | cons id order ih =>
    have member := perm.subset mem_cons_self
    rw [mem_filter, decide_eq_true_eq] at member
    obtain ⟨pane, alive, stays⟩ := live
    have ok := close_succeeds counted member.1 ⟨pane, alive, fun same => stays (same ▸ member.2)⟩
    have intact := call_intact t (.close id) counted trivial
    obtain ⟨before, gone, behind, leaves, rfl, after⟩ := intact.succeeded ok
    have panes : t.panes = before.map Pane.content ++ gone.content :: behind.map Pane.content := by
      rw [Tile.panes, leaves, map_append, map_cons]
    have counts : decide (gone.content.1 ∈ ids) = true := decide_eq_true member.2
    have rest : order.Perm (((t.close gone.windowId).1.panes.map Prod.fst).filter (· ∈ ids)) := by
      refine List.Perm.cons_inv (perm.trans ?_)
      rw [show (t.close gone.windowId).1.panes = _ from after, panes, map_append, map_append, map_cons,
        filter_append, filter_append, filter_cons, if_pos counts]
      exact perm_middle
    have still : ∃ pane ∈ (t.close gone.windowId).1.panes, pane.1 ∉ ids := by
      refine ⟨pane, ?_, stays⟩
      rw [panes, mem_append, mem_cons] at alive
      rw [show (t.close gone.windowId).1.panes = _ from after, mem_append]
      rcases alive with inBefore | rfl | inBehind
      · exact .inl inBefore
      · exact absurd member.2 stays
      · exact .inr inBehind
    exact (ih intact.counted rest still).trans (close_prune member.2)

/-- The panes that the call opens or closes are among `ids`. -/
def Visits (ids : List Nat) (t : Tile) : Call → Prop
  | .split paneId _ newId _ => newId ∈ ids ∧ t.SearchesAgree paneId
  | .close paneId => paneId ∈ ids
  | _ => False

theorem split_prune {paneId dir newId newVt} (member : newId ∈ ids) (agree : t.SearchesAgree paneId) :
    (contents (t.split paneId dir newId newVt).1.root).prune (shows ids) = (contents t.root).prune (shows ids) := by
  rcases split_cases t paneId dir newId newVt agree with h | ⟨target, pane, -, leaf, -, h⟩
  · rw [h]
  · rw [h]
    show (contents (tileLayout _ _)).prune _ = _
    rw [contents_layout, contents, contents, Lib.Tree.prune_map, Lib.Tree.prune_map]
    congr 1
    refine Lib.Tree.prune_replace leaf ?_
    have gone := prune_of_isLeafOf (n := .leaf { windowId := newId, vt := newVt }) (decide_eq_true rfl) member
    show Lib.Tree.join _ (Lib.Tree.prune _ (.leaf pane)) (Lib.Tree.prune _ _) = _
    rw [gone]
    cases Lib.Tree.prune (shows ids ∘ Pane.content) (.leaf pane) <;> rfl

structure Hosts (ids : List Nat) (home t : Tile) : Prop where
  counted : t.paneCount = t.root.leaves.length
  below : (contents t.root).prune (shows ids) = some (contents home.root)

theorem Hosts.step {home} (h : Hosts ids home t) (c : Call) (visits : Visits ids t c) : Hosts ids home (t.step c) := by
  cases c with
  | split paneId dir newId newVt =>
    exact ⟨(call_intact t (.split paneId dir newId newVt) h.counted visits.2).counted,
      (split_prune visits.1 visits.2).trans h.below⟩
  | close paneId => exact ⟨(call_intact t (.close paneId) h.counted trivial).counted, (close_prune visits).trans h.below⟩
  | setWindow | resizePane => cases visits

/-- **Panes that come and go leave no trace**: closing the rest of them, in any order, gives the tree back. -/
theorem visits_undone (counted : t.paneCount = t.root.leaves.length) (fresh : ∀ pane ∈ t.panes, pane.1 ∉ ids)
    {calls : List Call} (visits : Along Tile.step (Visits ids) t calls) {order}
    (perm : order.Perm (((calls.foldl Tile.step t).panes.map Prod.fst).filter (· ∈ ids))) :
    contents (closeAll (calls.foldl Tile.step t) order).root = contents t.root := by
  have home : Hosts ids t t := by
    refine ⟨counted, Lib.Tree.prune_of_forall fun pane member => ?_⟩
    rw [contents, Lib.Tree.leaves_map] at member
    exact decide_eq_false (fresh pane member)
  have ended := visits.invariant (fun _ c h => h.step c) home
  refine Option.some_inj.mp ((closeAll_prune ended.counted perm ?_).trans ended.below)
  by_contra none
  push Not at none
  have pruned : (contents (calls.foldl Tile.step t).root).prune (shows ids) = .none := by
    refine Lib.Tree.prune_eq_none fun pane member => ?_
    rw [contents, Lib.Tree.leaves_map] at member
    exact decide_eq_true (none pane member)
  rw [ended.below] at pruned
  cases pruned

theorem two_visits_undone :
    contents (closeAll ([.split 0 .v 1 none, .split 1 .h 2 none].foldl Tile.step (Tile.new 24 80)) [1, 2]).root =
      contents (Tile.new 24 80).root := by
  refine @visits_undone _ [1, 2] rfl (by decide) _ ?_ _ (by decide)
  exact ⟨⟨by decide, by decide⟩, ⟨by decide, by decide⟩, trivial⟩

end Closing

theorem Survives.now (survives : Survives nums nums' cwins cwins' tree) {num} (member : num ∈ tree.winNums) :
    liveWindow nums' cwins' num =
      if layoutPidOf nums num ∈ deadIds nums nums' cwins' tree then none else liveWindow nums cwins num := by
  by_cases gone : layoutPidOf nums num ∈ deadIds nums nums' cwins' tree
  · rw [if_pos gone]
    obtain ⟨other, found, same⟩ := mem_map.mp gone
    obtain ⟨inside, none⟩ := mem_filter.mp found
    by_contra live
    have alive := survives.whole num member other inside same.symm (Option.isSome_iff_ne_none.mpr live)
    rw [Option.isNone_iff_eq_none] at none
    rw [none] at alive
    cases alive
  · rw [if_neg gone]
    refine (survives.kept num member).resolve_left fun none => gone (mem_map_of_mem ?_)
    exact mem_filter.mpr ⟨member, by rw [none]; rfl⟩

theorem Survives.filter_ids (survives : Survives nums nums' cwins cwins' tree) :
    (tree.winNums.map (layoutPidOf nums)).filter (· ∈ deadIds nums nums' cwins' tree) =
      deadIds nums nums' cwins' tree := by
  rw [filter_map]
  refine congrArg (List.map _) (filter_congr fun num member => ?_)
  have now := survives.now member
  have all := survives.all num member
  by_cases gone : layoutPidOf nums num ∈ deadIds nums nums' cwins' tree
  · rw [if_pos gone] at now
    rw [now]
    simpa using gone
  · rw [if_neg gone] at now
    rw [now, Option.isNone_eq_false_iff.mpr all]
    simpa using gone

/-- **Restoring a layout with dead windows is closing their panes**, in any order. -/
theorem restore_eq_close {nums nums' : List Int} {cwins cwins' : List ClientWindow} {tree : LayoutTree}
    (survives : Survives nums nums' cwins cwins' tree) (t : Tile) {order : List Nat}
    (perm : order.Perm (deadIds nums nums' cwins' tree)) : ∃ full restored, screenBuildTileTree nums cwins tree = some full ∧
      screenBuildTileTree nums' cwins' tree = some restored ∧
      contents (closeAll (t.importTree full) order).root = contents restored := by
  obtain ⟨full, built, ids, pruned⟩ := build_prune survives.all fun num member => survives.now member
  have panes : (t.importTree full).panes.map Prod.fst = tree.winNums.map (layoutPidOf nums) := by
    rw [Tile.importTree, relayout_panes, Tile.panes, map_map]
    exact ids
  have live : ∃ pane ∈ (t.importTree full).panes, pane.1 ∉ deadIds nums nums' cwins' tree := by
    obtain ⟨num, member, alive⟩ := survives.one
    have shown := mem_map_of_mem (f := layoutPidOf nums) member
    rw [← panes] at shown
    obtain ⟨pane, inside, same⟩ := mem_map.mp shown
    refine ⟨pane, inside, fun gone => ?_⟩
    rw [survives.now member, if_pos (same ▸ gone)] at alive
    cases alive
  have counted : (t.importTree full).paneCount = (t.importTree full).root.leaves.length := by
    rw [← length_panes, Tile.importTree, relayout_panes, length_panes]
    rfl
  rw [← survives.filter_ids, ← panes] at perm
  have closed := closeAll_prune counted perm live
  have root : contents (t.importTree full).root = contents full := contents_layout ..
  rw [root, ← pruned] at closed
  obtain ⟨restored, found, same⟩ := Option.map_eq_some_iff.mp closed.symm
  exact ⟨full, restored, built, found, same.symm⟩

def fourWindows : LayoutTree :=
  .split true 128 (.leaf 0) (.split false 64 (.leaf 1) (.split true 200 (.leaf 2) (.leaf 3)))

def fourNums : List Int := [100, 101, 102, 103]

def fourCwins : List ClientWindow :=
  [{ id := 100, vt := some 0 }, { id := 101, vt := some 1 }, { id := 102, vt := some 2 }, { id := 103, vt := some 3 }]

theorem fourWindows_survive : Survives fourNums [0, 101, 0, 103] fourCwins (fourCwins.drop 1) fourWindows :=
  ⟨by decide, by decide, by decide, by decide⟩

theorem fourWindows_restored : Survives fourNums [0, 101, 0, 103] fourCwins (fourCwins.drop 1) fourWindows ∧
      ([102, 100] : List Nat).Perm (deadIds fourNums [0, 101, 0, 103] (fourCwins.drop 1) fourWindows) ∧
      ∃ full restored, screenBuildTileTree fourNums fourCwins fourWindows = some full ∧
        screenBuildTileTree [0, 101, 0, 103] (fourCwins.drop 1) fourWindows = some restored ∧
        contents (closeAll ((Tile.new 24 80).importTree full) [102, 100]).root = contents restored :=
  ⟨fourWindows_survive, by decide, restore_eq_close fourWindows_survive (Tile.new 24 80) (by decide)⟩

end Lumimux.Attach
