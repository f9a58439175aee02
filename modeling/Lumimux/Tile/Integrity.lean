import Lumimux.Lib.Run
import Lumimux.Tile.Tile

/-!
# Integrity of the pane tree

Splitting looks for the leaf in order and for its parent from the root.
-/

namespace Lumimux.Libtile
open Lib List Option

def Pane.content (pane : Pane) : Nat × Option Nat := (pane.windowId, pane.vt)

def Tile.panes (t : Tile) : List (Nat × Option Nat) := t.root.leaves.map Pane.content

@[simp] theorem layout_leaves (n : TileNode) (rect : Rect) :
    (tileLayout n rect).leaves.map Pane.content = n.leaves.map Pane.content := by
  induction n generalizing rect with
  | leaf pane => rfl
  | branch split a b iha ihb =>
    rw [tileLayout]
    cases split.dir <;> simp only [Tree.leaves, map_append, iha, ihb]

@[simp] theorem relayout_panes (t : Tile) : t.relayout.panes = t.panes := layout_leaves ..

theorem length_panes (t : Tile) : t.panes.length = t.root.leaves.length := length_map ..

section Searches

variable {windowId : Nat} {n : TileNode}

theorem nodeFind_spec {place} (found : nodeFind windowId n = some place) :
    ∃ pane, n.get? place = some (.leaf pane) ∧ pane.windowId = windowId := by
  induction n generalizing place with
  | leaf pane =>
    rw [nodeFind] at found
    split at found
    · cases found
      exact ⟨pane, rfl, by assumption⟩
    · cases found
  | branch split a b iha ihb =>
    rw [nodeFind] at found
    cases left : nodeFind windowId a with
    | some p =>
      rw [left] at found
      cases found
      exact iha left
    | none =>
      rw [left, map_eq_some_iff] at found
      obtain ⟨p, right, rfl⟩ := found
      exact ihb right

theorem isLeafOf_spec (h : isLeafOf windowId n = true) : ∃ pane, n = .leaf pane ∧ pane.windowId = windowId := by
  cases n with
  | leaf pane => exact ⟨pane, rfl, by simpa [isLeafOf] using h⟩
  | branch split a b => cases h

theorem nodeFindLeafParent_spec {place} (found : nodeFindLeafParent windowId n = some place) :
    ∃ split a b, n.get? place = some (.branch split a b) ∧ (isLeafOf windowId a = true ∨ isLeafOf windowId b = true) := by
  induction n generalizing place with
  | leaf pane => cases found
  | branch split a b iha ihb =>
    rw [nodeFindLeafParent] at found
    by_cases here : isLeafOf windowId a = true ∨ isLeafOf windowId b = true
    · have root : place = [] := by
        rcases here with h | h <;> simp only [h, if_true, ite_self, Option.some.injEq] at found <;> exact found.symm
      subst root
      exact ⟨split, a, b, Tree.get_nil _, here⟩
    · rw [not_or] at here
      rw [if_neg here.1, if_neg here.2] at found
      cases left : nodeFindLeafParent windowId a with
      | some p =>
        rw [left] at found
        cases found
        exact iha left
      | none =>
        rw [left, map_eq_some_iff] at found
        obtain ⟨p, right, rfl⟩ := found
        exact ihb right

theorem nodeFindLeafParent_isSome {place} (found : nodeFind windowId n = some place) :
    isLeafOf windowId n = true ∨ (nodeFindLeafParent windowId n).isSome := by
  induction n generalizing place with
  | leaf pane =>
    rw [nodeFind] at found
    split at found
    · exact .inl (by simpa [isLeafOf])
    · cases found
  | branch split a b iha ihb =>
    right
    have below : (isLeafOf windowId a = true ∨ (nodeFindLeafParent windowId a).isSome) ∨
        (isLeafOf windowId b = true ∨ (nodeFindLeafParent windowId b).isSome) := by
      rw [nodeFind] at found
      cases left : nodeFind windowId a with
      | some p => exact .inl (iha left)
      | none =>
        rw [left, map_eq_some_iff] at found
        obtain ⟨p, right, -⟩ := found
        exact .inr (ihb right)
    rw [nodeFindLeafParent]
    split_ifs with ha hb
    · rfl
    · rfl
    · cases left : nodeFindLeafParent windowId a with
      | some p => rfl
      | none =>
        simp only [ha, hb, left, isSome_none, Bool.false_eq_true, false_or] at below
        simpa using below

end Searches

def Tile.SearchesAgree (t : Tile) (paneId : Nat) : Prop :=
  ∀ target ∈ nodeFind paneId t.root, ∀ parent ∈ nodeFindLeafParent paneId t.root,
    target = parent ++ [.a] ∨ target = parent ++ [.b]
  deriving Decidable

theorem splicePlace_eq {t : Tile} {paneId : Nat} {target : Place} (agree : t.SearchesAgree paneId)
    (found : nodeFind paneId t.root = some target) : Tile.splicePlace (nodeFindLeafParent paneId t.root) target = target := by
  cases parent : nodeFindLeafParent paneId t.root with
  | some p =>
    rw [Tile.splicePlace]
    split
    · assumption
    · exact ((agree target found p parent).resolve_left (Ne.symm (by assumption))).symm
  | none =>
    rcases nodeFindLeafParent_isSome found with leaf | branch
    · obtain ⟨pane, root, same⟩ := isLeafOf_spec leaf
      rw [root, nodeFind, if_pos same] at found
      cases found
      rfl
    · rw [parent] at branch
      cases branch

def Tile.Edits (t : Tile) : Call → List (Nat × Option Nat) → Prop
  | .split paneId _ newId newVt, after =>
    ∃ target ∈ nodeFind paneId t.root, ∃ pane, t.root.get? target = some (.leaf pane) ∧
      after = (t.root.before target).map Pane.content ++ [pane.content, (newId, newVt)] ++
        (t.root.after target).map Pane.content
  | .close paneId, after =>
    ∃ before pane behind, t.root.leaves = before ++ pane :: behind ∧ pane.windowId = paneId ∧
      after = before.map Pane.content ++ behind.map Pane.content
  | .setWindow paneId windowId vt, after =>
    ∃ target ∈ nodeFind paneId t.root,
      after = (t.root.before target).map Pane.content ++ [(windowId, vt)] ++ (t.root.after target).map Pane.content
  | .resizePane .., after => after = t.panes

/-- A call edits the leaves as it should, or reports failure and leaves them. -/
structure Tile.Intact (t : Tile) (c : Call) : Prop where
  failed : (t.call c).2 = false → (t.step c).panes = t.panes
  succeeded : (t.call c).2 = true → t.Edits c (t.step c).panes
  counted : (t.step c).paneCount = (t.step c).root.leaves.length

/-- A split finds its leaf and its parent together. -/
def Tile.Agrees (t : Tile) : Call → Prop
  | .split paneId _ _ _ => t.SearchesAgree paneId
  | _ => True

instance (t : Tile) (c : Call) : Decidable (t.Agrees c) := by
  cases c <;> unfold Tile.Agrees <;> infer_instance

section Calls

variable {t : Tile}

theorem split_cases (t : Tile) (paneId : Nat) (dir : SplitDir) (newId : Nat) (newVt : Option Nat)
    (agree : t.SearchesAgree paneId) : t.split paneId dir newId newVt = (t, false) ∨
    ∃ target pane, nodeFind paneId t.root = some target ∧ t.root.get? target = some (.leaf pane) ∧ pane.Splits dir ∧
      t.split paneId dir newId newVt = (Tile.relayout { t with
        root := t.root.replace target
          (.branch { dir := dir, splitPos := 128 } (.leaf pane) (.leaf { windowId := newId, vt := newVt }))
        paneCount := t.paneCount + 1 }, true) := by
  unfold Tile.split
  cases found : nodeFind paneId t.root with
  | none => exact .inl rfl
  | some target =>
    obtain ⟨pane, leaf, -⟩ := nodeFind_spec found
    simp only [leaf]
    by_cases room : pane.Splits dir
    · exact .inr ⟨target, pane, rfl, leaf, room, by rw [if_pos room, splicePlace_eq agree found]⟩
    · exact .inl (if_neg room)

theorem close_cases (t : Tile) (paneId : Nat) : t.close paneId = (t, false) ∨
    ∃ parent split a b sibling focusedId, t.root.get? parent = some (.branch split a b) ∧
      ((isLeafOf paneId a = true ∧ sibling = b) ∨ (isLeafOf paneId b = true ∧ sibling = a)) ∧
      t.close paneId = (Tile.relayout { t with
        root := t.root.replace parent sibling, focusedId := focusedId, paneCount := t.paneCount - 1 }, true) := by
  unfold Tile.close
  by_cases few : t.paneCount ≤ 1
  · exact .inl (if_pos few)
  · rw [if_neg few]
    cases found : nodeFindLeafParent paneId t.root with
    | none => exact .inl rfl
    | some parent =>
      obtain ⟨split, a, b, branch, leaf⟩ := nodeFindLeafParent_spec found
      simp only [branch]
      refine .inr ⟨parent, split, a, b, if isLeafOf paneId a then b else a, _, branch, ?_, rfl⟩
      by_cases first : isLeafOf paneId a = true
      · exact .inl ⟨first, if_pos first⟩
      · exact .inr ⟨leaf.resolve_left first, if_neg first⟩

theorem closed_leaves {paneId parent split a b sibling} (branch : t.root.get? parent = some (.branch split a b))
    (closed : (isLeafOf paneId a = true ∧ sibling = b) ∨ (isLeafOf paneId b = true ∧ sibling = a)) :
    ∃ before pane after, t.root.leaves = before ++ pane :: after ∧ pane.windowId = paneId ∧
      (t.root.replace parent sibling).leaves = before ++ after := by
  rw [Tree.leaves_get branch, Tree.leaves_replace branch]
  rcases closed with ⟨leaf, rfl⟩ | ⟨leaf, rfl⟩
  · obtain ⟨pane, rfl, same⟩ := isLeafOf_spec leaf
    exact ⟨t.root.before parent, pane, sibling.leaves ++ t.root.after parent, by simp [Tree.leaves], same, by simp⟩
  · obtain ⟨pane, rfl, same⟩ := isLeafOf_spec leaf
    exact ⟨t.root.before parent ++ sibling.leaves, pane, t.root.after parent, by simp [Tree.leaves], same, rfl⟩

theorem setWindow_cases (t : Tile) (paneId windowId : Nat) (vt : Option Nat) : t.setWindow paneId windowId vt = (t, false) ∨
    ∃ target pane, nodeFind paneId t.root = some target ∧ t.root.get? target = some (.leaf pane) ∧
      t.setWindow paneId windowId vt =
        ({ t with root := t.root.replace target (.leaf { pane with windowId := windowId, vt := vt }) }, true) := by
  unfold Tile.setWindow
  cases found : nodeFind paneId t.root with
  | none => exact .inl rfl
  | some target =>
    obtain ⟨pane, leaf, -⟩ := nodeFind_spec found
    exact .inr ⟨target, pane, rfl, leaf, by simp only [leaf]⟩

theorem resizePane_cases (t : Tile) (paneId : Nat) (dr dc delta : Int) : (t.resizePane paneId dr dc delta = (t, false) ∧
      (delta ≠ 0 → ∀ place ∈ Tile.resizeSplit t paneId (Tile.wantDir dr) (Tile.wantSide dr dc), ∀ split a b,
        t.root.get? place = some (.branch split a b) → split.rect.extent (Tile.wantDir dr) ≤ 0)) ∨
    ∃ place split a b, delta ≠ 0 ∧
      Tile.resizeSplit t paneId (Tile.wantDir dr) (Tile.wantSide dr dc) = some place ∧
      t.root.get? place = some (.branch split a b) ∧
      t.resizePane paneId dr dc delta = (Tile.relayout { t with
        root := t.root.replace place
          (.branch (Tile.moved split (Tile.wantDir dr) (Tile.wantSide dr dc) delta) a b) }, true) := by
  unfold Tile.resizePane
  by_cases still : delta = 0
  · exact .inl ⟨if_pos still, fun h => absurd still h⟩
  · rw [if_neg still]
    cases found : Tile.resizeSplit t paneId (Tile.wantDir dr) (Tile.wantSide dr dc) with
    | none => exact .inl ⟨rfl, by simp⟩
    | some place =>
      cases at_place : t.root.get? place with
      | none => exact .inl ⟨by simp only [at_place], by simp [at_place]⟩
      | some n =>
        cases n with
        | leaf pane => exact .inl ⟨by simp only [at_place], by simp [at_place]⟩
        | branch split a b =>
          simp only [at_place]
          by_cases empty : split.rect.extent (Tile.wantDir dr) ≤ 0
          · refine .inl ⟨if_pos empty, fun _ place' same split' a' b' branch => ?_⟩
            cases same
            rw [at_place] at branch
            cases branch
            exact empty
          · exact .inr ⟨place, split, a, b, still, rfl, at_place, if_neg empty⟩

theorem panes_replace {place : Place} {old new : TileNode} (found : t.root.get? place = some old) {count : Int} {focus : Nat} :
    Tile.panes { t with root := t.root.replace place new, paneCount := count, focusedId := focus } =
      (t.root.before place).map Pane.content ++ new.leaves.map Pane.content ++ (t.root.after place).map Pane.content := by
  rw [Tile.panes, Tree.leaves_replace found, map_append, map_append]

theorem panes_get {place : Place} {old : TileNode} (found : t.root.get? place = some old) :
    t.panes = (t.root.before place).map Pane.content ++ old.leaves.map Pane.content ++
      (t.root.after place).map Pane.content := by
  rw [Tile.panes, Tree.leaves_get found, map_append, map_append]

theorem call_intact (t : Tile) (c : Call) (counted : t.paneCount = t.root.leaves.length) (agrees : t.Agrees c) :
    t.Intact c := by
  have unchanged : t.call c = (t, false) → t.Intact c := by
    intro h
    refine ⟨fun _ => by rw [Tile.step, h], fun ok => ?_, by rw [Tile.step, h]; exact counted⟩
    rw [h] at ok
    cases ok
  have changed : ∀ t' : Tile, t.call c = (t', true) → t.Edits c t'.panes → t'.paneCount = t'.panes.length → t.Intact c := by
    intro t' h edits count
    refine ⟨fun failed => ?_, fun _ => by rw [Tile.step, h]; exact edits, ?_⟩
    · rw [h] at failed
      cases failed
    · rw [Tile.step, h, ← length_panes]
      exact count
  rw [← length_panes] at counted
  cases c with
  | split paneId dir newId newVt =>
    rcases split_cases t paneId dir newId newVt agrees with h | ⟨target, pane, found, leaf, -, h⟩
    · exact unchanged h
    · refine changed _ h ⟨target, found, pane, leaf, ?_⟩ ?_
      · rw [relayout_panes, panes_replace leaf]
        rfl
      · rw [relayout_panes, panes_replace leaf]
        rw [panes_get leaf] at counted
        simp only [Tile.relayout, counted, length_append, Tree.leaves, map_append, map_cons, map_nil,
          length_cons, length_nil]
        omega
  | close paneId =>
    rcases close_cases t paneId with h | ⟨parent, split, a, b, sibling, focusedId, branch, closed, h⟩
    · exact unchanged h
    · obtain ⟨before, pane, after, had, same, has⟩ := closed_leaves branch closed
      refine changed _ h ⟨before, pane, after, had, same, ?_⟩ ?_
      · rw [relayout_panes, Tile.panes, has, map_append]
      · rw [relayout_panes, Tile.panes, has]
        rw [Tile.panes, had] at counted
        simp only [Tile.relayout, counted, length_map, length_append, length_cons]
        omega
  | setWindow paneId windowId vt =>
    rcases setWindow_cases t paneId windowId vt with h | ⟨target, pane, found, leaf, h⟩
    · exact unchanged h
    · refine changed _ h ⟨target, found, panes_replace leaf⟩ ?_
      rw [panes_replace leaf]
      rw [panes_get leaf] at counted
      simpa [Tree.leaves] using counted
  | resizePane paneId dr dc delta =>
    rcases resizePane_cases t paneId dr dc delta with ⟨h, -⟩ | ⟨place, split, a, b, -, -, branch, h⟩
    · exact unchanged h
    · have same : Tile.panes { t with
          root := t.root.replace place
            (.branch (Tile.moved split (Tile.wantDir dr) (Tile.wantSide dr dc) delta) a b) } = t.panes := by
        rw [panes_replace branch, panes_get branch]
        rfl
      refine changed _ h ?_ ?_
      · rw [relayout_panes]
        exact same
      · rw [relayout_panes, same]
        exact counted

end Calls

/-- **Pane tree integrity**: in every run whose splits find leaf and parent together, each call leaves
the tree with the leaves it should have. -/
theorem run_intact (rows cols : Int) (calls : List Call) (agrees : Along Tile.step Tile.Agrees (Tile.new rows cols) calls) :
    Along Tile.step Tile.Intact (Tile.new rows cols) calls :=
  agrees.gives (I := fun t => t.paneCount = t.root.leaves.length)
    (fun t c counted agrees => (call_intact t c counted agrees).counted)
    (fun t c counted agrees => call_intact t c counted agrees) rfl

theorem emptyPanes_intact : Along Tile.step Tile.Intact (Tile.new 24 80)
      [.split 0 .h 0 none, .setWindow 0 5 (some 1), .split 0 .v 0 none, .close 5, .close 0] :=
  run_intact 24 80 _ (by decide +kernel)

theorem split_splices_elsewhere : ¬ Along Tile.step Tile.Intact (Tile.new 24 80)
      [.split 0 .h 0 none, .setWindow 0 5 (some 1), .split 5 .v 0 none, .split 0 .h 7 (some 2)] := by
  rintro ⟨-, -, -, last, -⟩
  obtain ⟨target, found, pane, leaf, edits⟩ := last.succeeded (by decide +kernel)
  have here : target = [.a, .b] := Option.some.inj (found.symm.trans (by decide +kernel))
  subst here
  have shown := congrArg (Option.map fun n : TileNode => n.leaves.map Pane.content) leaf
  have empty : some [pane.content] = some [(0, none)] := shown.symm.trans (by decide +kernel)
  rw [Option.some.injEq, List.cons.injEq] at empty
  rw [empty.1] at edits
  exact absurd edits (by decide +kernel)

end Lumimux.Libtile
