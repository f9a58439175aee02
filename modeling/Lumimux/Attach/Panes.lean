import Mathlib.Data.List.GetD
import Lumimux.Sessdir.TreeText
import Lumimux.Tile.Geometry

/-!
# Saved screen layouts (`cmd/attach/attach.c`)

A layout names windows by their numbers in the state file. The client has slots for half of the numbers: a tree is
restored exactly when each of its windows has one of these (`layout_restored_iff`).
-/

namespace Lumimux.Attach
open Lib Libtile Sessdir List Option

def layoutGetNums (state : Bytes) (max : Nat) : List Int := stateNums state max

def pidToId (pid : Int) : Nat := (pid % 4294967296).toNat

def layoutNumOf (nums : List Int) (id : Nat) : Int :=
  match nums.findIdx? fun pid => pid ≠ 0 ∧ pidToId pid = id with
  | some num => num
  | none => -1

def layoutPidOf (nums : List Int) (num : Int) : Nat :=
  if num < 0 ∨ num ≥ nums.length then 0 else pidToId (nums.getD num.toNat 0)

def screenExportTree (nums : List Int) : TileNode → Option LayoutTree
  | .leaf pane =>
    let num := layoutNumOf nums pane.windowId
    if num < 0 then none else some (.leaf num)
  | .branch split a b => do
    let a ← screenExportTree nums a
    let b ← screenExportTree nums b
    return .split (split.dir = .v) split.splitPos a b

def screenSaveLayout (state : Bytes) (file : Option Bytes) (tilemgr : Tile) : Option Bytes :=
  let nums := layoutGetNums state layoutMaxWins
  if nums = [] then file
  else
    (ScreenLayout.make (layoutNumOf nums tilemgr.focusedId) (screenExportTree nums tilemgr.root)).map fun layout =>
      composeSave file (.screen layout)

structure ClientWindow where
  id : Nat
  vt : Option Nat := none
  deriving DecidableEq, Repr

def cwinFind (cwins : List ClientWindow) (id : Nat) : Option ClientWindow := cwins.find? (·.id = id)

def screenBuildTileTree (nums : List Int) (cwins : List ClientWindow) : LayoutTree → Option TileNode
  | .leaf winNum =>
    let id := layoutPidOf nums winNum
    let cw := if id ≠ 0 then cwinFind cwins id else none
    cw.map fun cw => .leaf { windowId := id, vt := cw.vt }
  | .split vertical splitPos a b =>
    match screenBuildTileTree nums cwins a, screenBuildTileTree nums cwins b with
    | some a, some b => some (.branch { dir := if vertical then .v else .h, splitPos := splitPos } a b)
    | some a, none => some a
    | none, keep => keep

structure Applied where
  tilemgr : Tile
  watched : Option ClientWindow
  deriving DecidableEq, Repr

def screenApplyLayout (state : Bytes) (file : Option Bytes) (cwins : List ClientWindow)
    (tilemgr : Option Tile) (contentRows contentCols : Int) : Option Applied := do
  let (focus, tree) ← layoutLoadScreen file
  let nums := layoutGetNums state layoutMaxWins
  if nums = [] then none
  else
    let root ← screenBuildTileTree nums cwins tree
    let t := (tilemgr.getD (Tile.new contentRows contentCols)).importTree root
    let t := if layoutPidOf nums focus ≠ 0 then t.focus (layoutPidOf nums focus) else t
    -- the first pane that shows a window
    let first := ((t.root.leaves.map Pane.windowId).find? (· ≠ 0)).getD 0
    let t := if t.focusedId = 0 then t.focus first else t
    return { tilemgr := t, watched := cwinFind cwins t.focusedId }

/-- The state file gives the window the number. -/
def HasNumber (state : Bytes) (id num : Nat) : Prop :=
  ∃ pid, (stateParse state).nums[num]? = some pid ∧ pid ≠ 0 ∧ pidToId pid = id

theorem layoutNumOf_cases (nums : List Int) (id : Nat) :
    (∃ num pid, layoutNumOf nums id = (num : Nat) ∧ nums[num]? = some pid ∧ pid ≠ 0 ∧ pidToId pid = id) ∨
      (layoutNumOf nums id = -1 ∧ ∀ pid ∈ nums, ¬(pid ≠ 0 ∧ pidToId pid = id)) := by
  unfold layoutNumOf
  split
  · rename_i num found
    obtain ⟨inside, holds, -⟩ := List.findIdx?_eq_some_iff_getElem.mp found
    rw [decide_eq_true_eq] at holds
    exact .inl ⟨num, nums[num], rfl, getElem?_eq_getElem inside, holds⟩
  · rename_i missing
    refine .inr ⟨rfl, fun pid member holds => ?_⟩
    have none := List.findIdx?_eq_none_iff.mp missing pid member
    rw [decide_eq_false_iff_not] at none
    exact none holds

theorem numbered_iff (state : Bytes) (id : Nat) :
    0 ≤ layoutNumOf (layoutGetNums state layoutMaxWins) id ↔ ∃ num < layoutMaxWins, HasNumber state id num := by
  rcases layoutNumOf_cases (layoutGetNums state layoutMaxWins) id with ⟨num, pid, found, slot, holds⟩ | ⟨none, missing⟩
  · rw [found]
    refine ⟨fun _ => ?_, fun _ => Int.natCast_nonneg num⟩
    rw [layoutGetNums, stateNums, getElem?_take] at slot
    split at slot
    · rename_i small
      exact ⟨num, small, pid, slot, holds⟩
    · cases slot
  · rw [none]
    refine ⟨fun positive => absurd positive (by decide), ?_⟩
    rintro ⟨num, small, pid, slot, holds⟩
    have inside : (layoutGetNums state layoutMaxWins)[num]? = some pid := by
      rw [layoutGetNums, stateNums, getElem?_take, if_pos small, slot]
    exact absurd holds (missing pid (mem_of_getElem? inside))

theorem layoutNumOf_isInt (state : Bytes) (id : Nat) : IsInt (layoutNumOf (layoutGetNums state layoutMaxWins) id) := by
  rcases layoutNumOf_cases (layoutGetNums state layoutMaxWins) id with ⟨num, pid, found, slot, -⟩ | ⟨none, -⟩
  · obtain ⟨inside, -⟩ := List.getElem?_eq_some_iff.mp slot
    have few : (layoutGetNums state layoutMaxWins).length ≤ 32 := by
      rw [layoutGetNums, stateNums, length_take]
      exact min_le_left _ _
    rw [found]
    constructor <;> omega
  · rw [none]
    decide

theorem layoutPidOf_layoutNumOf {nums id} (numbered : 0 ≤ layoutNumOf nums id) :
    layoutPidOf nums (layoutNumOf nums id) = id := by
  rcases layoutNumOf_cases nums id with ⟨num, pid, found, slot, -, same⟩ | ⟨none, -⟩
  · obtain ⟨inside, value⟩ := List.getElem?_eq_some_iff.mp slot
    rw [found, layoutPidOf, if_neg (by omega), Int.toNat_natCast, getD_eq_getElem _ _ inside, value, same]
  · rw [none] at numbered
    exact absurd numbered (by decide)

def skeleton (n : TileNode) : Lib.Tree (SplitDir × Int) Nat :=
  n.map (fun split => (split.dir, split.splitPos)) Pane.windowId

theorem skeleton_layout (n : TileNode) (rect : Rect) : skeleton (tileLayout n rect) = skeleton n := by
  unfold skeleton
  induction n generalizing rect with
  | leaf pane => rfl
  | branch split a b iha ihb => rw [layout_branch, Lib.Tree.map, Lib.Tree.map, iha, ihb]

theorem export_none {nums n pane} (member : pane ∈ n.leaves) (missing : layoutNumOf nums pane.windowId < 0) :
    screenExportTree nums n = none := by
  induction n with
  | leaf other =>
    obtain rfl := mem_singleton.mp member
    simp only [screenExportTree, if_pos missing]
  | branch split a b iha ihb =>
    rcases mem_append.mp member with inA | inB
    · simp only [screenExportTree, iha inA, bind_eq_bind, bind_none]
    · simp only [screenExportTree, ihb inB, bind_eq_bind, bind_none]
      cases screenExportTree nums a <;> rfl

structure Saves (nums : List Int) (cwins : List ClientWindow) (n : TileNode) (tree : LayoutTree) : Prop where
  exported : screenExportTree nums n = some tree
  ints : tree.Ints
  short : (treeSerialize tree).length + 14 ≤ 25 * n.leaves.length
  built : ∃ n', screenBuildTileTree nums cwins tree = some n' ∧ skeleton n' = skeleton n

theorem tree_saves {state cwins n} (ints : ∀ split ∈ n.branches, IsInt split.splitPos)
    (live : ∀ pane ∈ n.leaves, pane.windowId ≠ 0 ∧ (cwinFind cwins pane.windowId).isSome)
    (numbered : ∀ pane ∈ n.leaves, 0 ≤ layoutNumOf (layoutGetNums state layoutMaxWins) pane.windowId) :
    ∃ tree, Saves (layoutGetNums state layoutMaxWins) cwins n tree := by
  induction n with
  | leaf pane =>
    have number := numbered pane (mem_singleton_self _)
    obtain ⟨nonzero, found⟩ := live pane (mem_singleton_self _)
    obtain ⟨cw, found⟩ := isSome_iff_exists.mp found
    have int := layoutNumOf_isInt state pane.windowId
    refine ⟨.leaf (layoutNumOf (layoutGetNums state layoutMaxWins) pane.windowId), ?_, int, ?_, ?_⟩
    · simp only [screenExportTree, if_neg (not_lt.mpr number)]
    · have short := length_printInt_le int
      simp only [treeSerialize, Lib.Tree.leaves, length_singleton]
      omega
    · refine ⟨.leaf { windowId := pane.windowId, vt := cw.vt }, ?_, rfl⟩
      simp only [screenBuildTileTree, layoutPidOf_layoutNumOf number, ne_eq, nonzero, not_false_eq_true, if_true, found,
        map_some]
  | branch split a b iha ihb =>
    simp only [Lib.Tree.branches, forall_mem_cons, forall_mem_append] at ints
    simp only [Lib.Tree.leaves, forall_mem_append] at live numbered
    obtain ⟨treeA, savesA⟩ := iha ints.2.1 live.1 numbered.1
    obtain ⟨treeB, savesB⟩ := ihb ints.2.2 live.2 numbered.2
    obtain ⟨a', builtA, sameA⟩ := savesA.built
    obtain ⟨b', builtB, sameB⟩ := savesB.built
    refine ⟨.split (split.dir = .v) split.splitPos treeA treeB, ?_, ⟨ints.1, savesA.ints, savesB.ints⟩, ?_, ?_⟩
    · simp only [screenExportTree, savesA.exported, savesB.exported, bind_eq_bind, bind_some]
      rfl
    · have position := length_printInt_le ints.1
      have shortA := savesA.short
      have shortB := savesB.short
      simp only [treeSerialize, Lib.Tree.leaves, length_cons, length_append]
      omega
    · have dir : (if decide (split.dir = .v) = true then SplitDir.v else SplitDir.h) = split.dir := by
        cases split.dir <;> rfl
      refine ⟨.branch { dir := split.dir, splitPos := split.splitPos } a' b', ?_, ?_⟩
      · simp only [screenBuildTileTree, builtA, builtB, dir]
      · simp only [skeleton, Lib.Tree.map] at sameA sameB ⊢
        rw [sameA, sameB]

theorem focus_root (t : Tile) (paneId : Nat) : (t.focus paneId).root = t.root := by
  unfold Tile.focus
  split <;> rfl

theorem screenApplyLayout_some {state file cwins focus tree root} (loaded : layoutLoadScreen file = some (focus, tree))
    (nums : layoutGetNums state layoutMaxWins ≠ [])
    (built : screenBuildTileTree (layoutGetNums state layoutMaxWins) cwins tree = some root) (tilemgr : Option Tile)
    (rows cols : Int) : ∃ applied, screenApplyLayout state file cwins tilemgr rows cols = some applied ∧
      skeleton applied.tilemgr.root = skeleton root := by
  refine ⟨_, by simp only [screenApplyLayout, loaded, bind_eq_bind, bind_some, if_neg nums, built]; rfl, ?_⟩
  dsimp only
  have imported : skeleton ((tilemgr.getD (Tile.new rows cols)).importTree root).root = skeleton root :=
    skeleton_layout root _
  split <;> split <;> simp only [focus_root, imported]

/-- The panes of a tree hold distinct live windows, all with a number in the state file, and there are at
most 64 of them. -/
structure Savable (state : Bytes) (cwins : List ClientWindow) (root : TileNode) : Prop where
  few : root.leaves.length ≤ 64
  ints : ∀ split ∈ root.branches, IsInt split.splitPos
  apart : (root.leaves.map Pane.windowId).Nodup
  live : ∀ pane ∈ root.leaves, pane.windowId ≠ 0 ∧ (cwinFind cwins pane.windowId).isSome
  numbered : ∀ pane ∈ root.leaves, ∃ num < maxWindows, HasNumber state pane.windowId num

/-- **A saved screen layout restores the pane tree** exactly when each window has a number for which the
client has a slot. -/
theorem layout_restored_iff (state : Bytes) (file : Option Bytes) (cwins : List ClientWindow) (t : Tile)
    (savable : Savable state cwins t.root) (tilemgr : Option Tile) (rows cols : Int) :
    (∃ applied, screenApplyLayout state (screenSaveLayout state file t) cwins tilemgr rows cols = some applied ∧
        skeleton applied.tilemgr.root = skeleton t.root) ↔
      ∀ pane ∈ t.root.leaves, ∃ num < layoutMaxWins, HasNumber state pane.windowId num := by
  have focusInt := layoutNumOf_isInt state t.focusedId
  constructor
  · rintro ⟨applied, restored, -⟩ pane member
    by_contra missing
    have negative : layoutNumOf (layoutGetNums state layoutMaxWins) pane.windowId < 0 :=
      not_le.mp (mt (numbered_iff state pane.windowId).mp missing)
    by_cases nums : layoutGetNums state layoutMaxWins = []
    · simp only [screenApplyLayout, nums, if_true, bind_eq_bind, bind_eq_some_iff] at restored
      obtain ⟨-, -, none⟩ := restored
      cases none
    · have unloaded : layoutLoadScreen (screenSaveLayout state file t) = none := by
        rw [screenSaveLayout, if_neg nums, export_none member negative, ScreenLayout.make, map_some, composeSave,
          saveText, layoutLoadScreen_screenText _ focusInt (fun _ none => by cases none)]
        rfl
      simp only [screenApplyLayout, unloaded, bind_eq_bind, bind_none] at restored
      cases restored
  · intro small
    obtain ⟨tree, exported, ints, short, root, built, same⟩ := @tree_saves state _ _ savable.ints savable.live
      fun pane member => (numbered_iff state pane.windowId).mpr (small pane member)
    have fits : (treeSerialize tree).length < 4095 := by
      have few := savable.few
      omega
    have nums : layoutGetNums state layoutMaxWins ≠ [] := by
      obtain ⟨pane, more, shape⟩ := exists_cons_of_ne_nil (Lib.Tree.leaves_ne_nil t.root)
      obtain ⟨num, low, pid, slot, -⟩ := small pane (shape ▸ mem_cons_self)
      intro none
      have inside : (layoutGetNums state layoutMaxWins)[num]? = some pid := by
        rw [layoutGetNums, stateNums, getElem?_take, if_pos low, slot]
      rw [none] at inside
      cases inside
    obtain ⟨focus, loaded⟩ : ∃ focus, layoutLoadScreen (screenSaveLayout state file t) = some (focus, tree) := by
      rw [screenSaveLayout, if_neg nums, exported, ScreenLayout.make, dif_pos fits, map_some, composeSave,
        saveText, layoutLoadScreen_screenText _ focusInt (fun _ same => by cases same; exact ints)]
      exact ⟨_, rfl⟩
    obtain ⟨applied, restored, shape⟩ := screenApplyLayout_some loaded nums built tilemgr rows cols
    exact ⟨applied, restored, shape.trans same⟩

def twoWindows : Bytes := (stateAddServer true (stateAddServer true [] 7).1 9).1

def twoPanes : Tile :=
  { root := .branch { dir := .v, splitPos := 100 } (.leaf { windowId := 9 }) (.leaf { windowId := 7 })
    rows := 24
    cols := 80
    focusedId := 9
    paneCount := 2 }

theorem twoPanes_restored :
    ∃ applied, screenApplyLayout twoWindows (screenSaveLayout twoWindows none twoPanes) [{ id := 7 }, { id := 9 }] none 24 80 =
        some applied ∧ skeleton applied.tilemgr.root = skeleton twoPanes.root := by
  have seven : HasNumber twoWindows 7 0 := ⟨7, by decide +kernel, by decide, by decide⟩
  have nine : HasNumber twoWindows 9 1 := ⟨9, by decide +kernel, by decide, by decide⟩
  have panes : ∀ pane ∈ Lib.Tree.leaves twoPanes.root, pane.windowId = 9 ∨ pane.windowId = 7 := by decide
  refine (layout_restored_iff twoWindows none _ twoPanes ⟨by decide, by decide, by decide, by decide, ?_⟩ none 24 80).mpr ?_
  all_goals
    intro pane member
    rcases panes pane member with id | id <;> rw [id]
  · exact ⟨1, by decide, nine⟩
  · exact ⟨0, by decide, seven⟩
  · exact ⟨1, by decide, nine⟩
  · exact ⟨0, by decide, seven⟩

def renumbered : Bytes := (stateSetNum true (stateAddServer true [] 7).1 7 32).1

def onePane : Tile := { root := .leaf { windowId := 7 }, rows := 24, cols := 80, focusedId := 7 }

theorem renumbered_lost : Savable renumbered [{ id := 7 }] onePane.root ∧
      screenApplyLayout renumbered (screenSaveLayout renumbered none onePane) [{ id := 7 }] none 24 80 = none := by
  refine ⟨⟨by decide, by decide, by decide, by decide, ?_⟩, by decide +kernel⟩
  intro pane member
  obtain rfl := mem_singleton.mp member
  exact ⟨32, by decide, 7, by decide +kernel, by decide, by decide⟩

end Lumimux.Attach
