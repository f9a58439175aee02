import Lumimux.Sessdir.TreeText

/-!
# Layout files are read back (`libsessdir/sessdir_layout.c`)

A turbo layout is a line for each valid slot, which a loader looks up by its key.
-/

namespace Lumimux.Sessdir
open Lib List Option

/-- The geometry is of C integers. -/
structure TurboWin.Ints (win : TurboWin) : Prop where
  x : IsInt win.x
  y : IsInt win.y
  w : IsInt win.w
  h : IsInt win.h

def winValue (win : TurboWin) : Bytes :=
  printInt win.x ++ 32 :: (printInt win.y ++ 32 :: (printInt win.w ++ 32 :: printInt win.h))

theorem scanInt_blank (text : Bytes) : scanInt (32 :: text) = scanInt text := rfl

theorem scanInt_printInt {n} (int : IsInt n) {rest} (ends : EndsAt isDigit rest) :
    scanInt (printInt n ++ rest) = some (n, rest) := by
  rw [scanInt, scanSigned_printInt int ends, map_some, longToInt_of_isInt int]

theorem scanWin_winValue {win} (ints : win.Ints) : scanWin (winValue win) = some win := by
  have last := scanInt_printInt ints.h (endsAt_nil isDigit)
  rw [append_nil] at last
  simp only [scanWin, winValue, scanInt_printInt ints.x (endsAt_blank_digit _), scanInt_blank,
    scanInt_printInt ints.y (endsAt_blank_digit _), scanInt_printInt ints.w (endsAt_blank_digit _), last,
    bind_eq_bind, bind_some]
  rfl

theorem winValue_mem {win b} (member : b ∈ winValue win) : (isDigit b = true ∨ b = 45) ∨ b = 32 := by
  simp only [winValue, mem_append, mem_cons] at member
  rcases member with number | blank | number | blank | number | blank | number
  · exact .inl (printInt_mem number)
  · exact .inr blank
  · exact .inl (printInt_mem number)
  · exact .inr blank
  · exact .inl (printInt_mem number)
  · exact .inr blank
  · exact .inl (printInt_mem number)

theorem winValue_plain {win b} (member : b ∈ winValue win) : b ≠ 0 ∧ b ≠ newline ∧ b ≠ 34 ∧ b ≠ 92 := by
  rcases winValue_mem member with number | rfl
  · obtain ⟨zero, -, -, -, line, quote, backslash⟩ := number_byte number
    exact ⟨zero, line, quote, backslash⟩
  · decide

theorem length_winValue {win} (ints : win.Ints) : (winValue win).length ≤ 4095 := by
  have x := length_printInt_le ints.x
  have y := length_printInt_le ints.y
  have w := length_printInt_le ints.w
  have h := length_printInt_le ints.h
  simp only [winValue, length_append, length_cons]
  omega

def winKey (i : Nat) : Bytes := ascii "WIN_" ++ decimal i

theorem winKey_injective : Function.Injective winKey := fun _ _ same => decimal_injective (append_cancel_left same)

theorem winKey_apart (i : Nat) : winKey i ∉ [ascii "MODE", ascii "VERSION", ascii "GEN", ascii "FOCUS"] := by
  have start : (winKey i).head? = some 87 := rfl
  have apart : ∀ key ∈ [ascii "MODE", ascii "VERSION", ascii "GEN", ascii "FOCUS"], key.head? ≠ some 87 := by decide
  exact fun member => apart _ member start

def winLines : Nat → List (Option TurboWin) → List Line
  | _, [] => []
  | i, win :: wins =>
    (win.toList.map fun win => (winKey i, 34 :: (winValue win ++ [34]), winValue win)) ++ winLines (i + 1) wins

theorem winLines_text (i : Nat) (wins : List (Option TurboWin)) :
    linesText (winLines i wins) = ((wins.zipIdx i).map fun (win, i) => (win.map (winText · i)).getD []).flatten := by
  induction wins generalizing i with
  | nil => rfl
  | cons win wins ih =>
    rw [winLines, linesText, flatMap_append, zipIdx_cons, map_cons, flatten_cons, ← ih, linesText]
    congr 1
    cases win with
    | none => rfl
    | some win => exact append_nil _

theorem turboText_eq (gen : UInt64) (layout : TurboLayout) :
    turboText gen layout = linesText (layoutLines (ascii "turbo") gen layout.focus (winLines 0 layout.wins)) := by
  rw [linesText_layout, winLines_text, turboText]

theorem mem_winLines {i wins l} (member : l ∈ winLines i wins) :
    ∃ j win, i ≤ j ∧ j < i + wins.length ∧ some win ∈ wins ∧ l = (winKey j, 34 :: (winValue win ++ [34]), winValue win) := by
  induction wins generalizing i with
  | nil => cases member
  | cons slot wins ih =>
    rw [winLines, mem_append] at member
    rcases member with here | later
    · obtain ⟨win, valid, rfl⟩ := mem_map.mp here
      rw [mem_toList] at valid
      exact ⟨i, win, le_rfl, by simp, valid ▸ mem_cons_self, rfl⟩
    · obtain ⟨j, win, low, high, valid, rfl⟩ := ih later
      refine ⟨j, win, by omega, ?_, mem_cons_of_mem _ valid, rfl⟩
      rw [length_cons]
      omega

theorem length_winLines (i : Nat) (wins : List (Option TurboWin)) : (winLines i wins).length ≤ wins.length := by
  induction wins generalizing i with
  | nil => exact le_rfl
  | cons slot wins ih =>
    have rest := ih (i + 1)
    cases slot <;> simp only [winLines, length_append, length_map, length_cons, toList_none,
      toList_some, length_nil] <;> omega

theorem kvGet_winLines (i j : Nat) (wins : List (Option TurboWin)) :
    kvGet ((winLines i wins).map fun l => (l.1, l.2.2)) (winKey (i + j)) = wins[j]?.join.map winValue := by
  induction wins generalizing i j with
  | nil => rfl
  | cons slot wins ih =>
    cases j with
    | zero =>
      cases slot with
      | none =>
        refine kvGet_of_forall (forall_mem_map.mpr fun l member => ?_)
        rw [winLines, toList_none, map_nil, nil_append] at member
        obtain ⟨later, win, low, -, -, rfl⟩ := mem_winLines member
        intro same
        have := winKey_injective same
        omega
      | some win => exact kvGet_cons_self ..
    | succ j =>
      have rest := ih (i + 1) j
      rw [Nat.add_right_comm, Nat.add_assoc] at rest
      rw [getElem?_cons_succ, ← rest, winLines, map_append]
      cases slot with
      | none => rfl
      | some win =>
        refine kvGet_cons_of_ne (fun same => ?_) _
        have := winKey_injective same
        omega

theorem winLines_ok {wins} (few : wins.length ≤ layoutMaxWins) (ints : ∀ win, some win ∈ wins → win.Ints) :
    ∀ l ∈ winLines 0 wins, l.Ok := by
  intro l member
  obtain ⟨i, win, -, small, valid, rfl⟩ := mem_winLines member
  have named : ∀ i < 32, (winKey i).length < 256 ∧ 61 ∉ winKey i ∧ newline ∉ winKey i := by decide
  obtain ⟨short, plain⟩ := named i (by rw [layoutMaxWins] at few; omega)
  exact ⟨⟨⟨87, ascii "IN_" ++ decimal i, rfl, by decide⟩, short, plain⟩,
    reads_quoted (fun _ inside => (winValue_plain inside).2) (length_winValue (ints win valid))⟩

theorem turboText_nonzero (gen : UInt64) (layout : TurboLayout) : 0 ∉ turboText gen layout := by
  rw [turboText_eq]
  refine layoutLines_nonzero gen (by decide) fun member => ?_
  obtain ⟨l, line, inside⟩ := mem_flatMap.mp member
  obtain ⟨i, win, -, -, -, rfl⟩ := mem_winLines line
  have digits := (decimal_plain i).2
  have text : 0 ∉ winValue win := fun member => (winValue_plain member).1 rfl
  have fixed : (0 : UInt8) ∉ ascii "WIN_" ∧ (0 : UInt8) ≠ 61 ∧ (0 : UInt8) ≠ newline ∧ (0 : UInt8) ≠ 34 := by decide
  simp only [winKey, kvText, mem_append, mem_cons, not_mem_nil, or_false] at inside
  tauto

theorem le_countWins (i n : Nat) (wins : List (Option TurboWin)) : n ≤ countWins i n wins := by
  induction wins generalizing i n with
  | nil => exact le_rfl
  | cons win wins ih =>
    refine le_trans ?_ (ih ..)
    split <;> omega

theorem lt_countWins {i n j wins} (valid : wins[j]?.join ≠ none) : i + j < countWins i n wins := by
  induction wins generalizing i n j with
  | nil => exact absurd rfl valid
  | cons win wins ih =>
    cases j with
    | zero =>
      rw [countWins]
      refine lt_of_lt_of_le ?_ (le_countWins ..)
      have here : win.isSome = true := isSome_iff_ne_none.mpr valid
      by_cases new : i ≥ n
      · rw [if_pos ⟨here, new⟩]
        omega
      · rw [if_neg fun both => new both.2]
        omega
    | succ j =>
      have rest := @ih (i + 1) (if win.isSome ∧ i ≥ n then i + 1 else n) j valid
      rw [countWins]
      omega

/-- The same windows in the same slots. -/
def SameSlots (wins wins' : List (Option TurboWin)) : Prop := ∀ j : Nat, wins[j]?.join = wins'[j]?.join

theorem slot_take (wins : List (Option TurboWin)) (j : Nat) : (wins.take (countWins 0 0 wins))[j]?.join = wins[j]?.join := by
  rw [getElem?_take]
  split
  · rfl
  · rename_i far
    by_contra valid
    have := @lt_countWins 0 0 j wins (fun none => valid (by rw [none]; rfl))
    omega

theorem layoutLoadTurbo_turboText (gen : UInt64) {layout} (int : IsInt layout.focus)
    (few : layout.wins.length ≤ layoutMaxWins) (ints : ∀ win, some win ∈ layout.wins → win.Ints) :
    ∃ loaded, layoutLoadTurbo (some (turboText gen layout)) = some loaded ∧
      loaded.focus = (if layout.focus ≥ 0 then layout.focus else -1) ∧ SameSlots loaded.wins layout.wins := by
  have total : (winLines 0 layout.wins).length + 4 ≤ maxKv := by
    have := length_winLines 0 layout.wins
    rw [layoutMaxWins] at few
    rw [maxKv]
    omega
  have apart : ∀ l ∈ winLines 0 layout.wins, l.1 ≠ ascii "FOCUS" := by
    intro l member same
    obtain ⟨i, win, -, -, -, rfl⟩ := mem_winLines member
    exact winKey_apart i (mem_of_getElem? (i := 3) (congrArg some same.symm))
  have saved := kvParse_layoutLines gen (reads_plain (by decide) (by decide) (by decide) : Reads (ascii "turbo") _) int
    (winLines_ok few ints) total apart
  rw [← turboText_eq] at saved
  have slot : ∀ i : Nat, (kvGet (kvParse (turboText gen layout)) (winKey i)).bind scanWin = layout.wins[i]?.join := by
    intro i
    have found := kvGet_winLines 0 i layout.wins
    rw [Nat.zero_add] at found
    rw [saved.others _ (winKey_apart i), found]
    cases same : layout.wins[i]?.join with
    | none => rfl
    | some win =>
      have member : some win ∈ layout.wins := mem_of_getElem? (join_eq_some_iff.mp same)
      exact scanWin_winValue (ints win member)
  have slots : ((range layoutMaxWins).map fun i =>
      (kvGet (kvParse (turboText gen layout)) (ascii "WIN_" ++ decimal i)).bind scanWin) =
      (range layoutMaxWins).map fun i => layout.wins[i]?.join :=
    map_congr_left fun i _ => slot i
  simp only [layoutLoadTurbo, layoutRead_of_nonzero (turboText_nonzero gen layout), saved.version, saved.mode, saved.focus,
    slots, bind_eq_bind, bind_some, and_self, if_true]
  refine ⟨_, rfl, ?_, fun j => ?_⟩
  · by_cases shown : layout.focus ≥ 0
    · simp only [if_pos shown, longToInt_printed int]
    · simp only [if_neg shown]
  · rw [slot_take, getElem?_map]
    by_cases small : j < layoutMaxWins
    · rw [getElem?_range small]
      rfl
    · rw [getElem?_eq_none (by simpa using small), getElem?_eq_none (l := layout.wins) (by omega)]
      rfl

def LayoutTree.splitPositions : LayoutTree → List Int
  | .leaf _ => []
  | .split _ splitPos a b => splitPos :: (a.splitPositions ++ b.splitPositions)

/-- A tree of at most 64 windows with small numbers. -/
structure LayoutTree.Small (tree : LayoutTree) : Prop where
  few : tree.winNums.length ≤ 64
  numbers : ∀ num ∈ tree.winNums, 0 ≤ num ∧ num ≤ 63
  positions : ∀ pos ∈ tree.splitPositions, 0 ≤ pos ∧ pos ≤ 256

theorem length_printInt_small {n k} (positive : 0 ≤ n) (small : n.natAbs < 10 ^ k) (pos : 0 < k) :
    (printInt n).length ≤ k := by
  rw [printInt, if_neg (not_lt.mpr positive)]
  exact length_decimal_le small pos

theorem treeSerialize_small {tree} (numbers : ∀ num ∈ tree.winNums, 0 ≤ num ∧ num ≤ 63)
    (positions : ∀ pos ∈ tree.splitPositions, 0 ≤ pos ∧ pos ≤ 256) :
    (treeSerialize tree).length + 6 ≤ 8 * tree.winNums.length ∧ tree.Ints := by
  induction tree with
  | leaf num =>
    obtain ⟨low, high⟩ := numbers num mem_cons_self
    have text := length_printInt_small low (k := 2) (by omega) (by decide)
    refine ⟨?_, by omega, by omega⟩
    simp only [treeSerialize, LayoutTree.winNums, length_cons, length_nil]
    omega
  | split vertical splitPos a b iha ihb =>
    obtain ⟨⟨low, high⟩, inside⟩ := forall_mem_cons.mp positions
    obtain ⟨positionsA, positionsB⟩ := forall_mem_append.mp inside
    obtain ⟨numbersA, numbersB⟩ := forall_mem_append.mp numbers
    have text := length_printInt_small low (k := 3) (by omega) (by decide)
    obtain ⟨left, intsA⟩ := iha numbersA positionsA
    obtain ⟨right, intsB⟩ := ihb numbersB positionsB
    refine ⟨?_, ⟨by omega, by omega⟩, intsA, intsB⟩
    simp only [treeSerialize, LayoutTree.winNums, length_cons, length_append]
    omega

/-- A focus as the client saves it, -1 for none. -/
structure IsFocus (focus : Int) : Prop where
  int : IsInt focus
  low : -1 ≤ focus

theorem IsFocus.shown {focus} (is : IsFocus focus) : (if focus ≥ 0 then focus else -1) = focus := by
  have low := is.low
  split <;> omega

/-- **Layout files are read back**, whatever file was there before. A screen layout with a small tree fits its buffer and
is loaded as it was; a turbo layout is loaded with the same focus and the same valid slots and geometry. -/
theorem layouts_read_back (file : Option Bytes) {focus : Int} (focused : IsFocus focus) :
    (∀ tree : LayoutTree, tree.Small → ∃ layout, ScreenLayout.make focus (some tree) = some layout ∧
      layoutLoadScreen (some (composeSave file (.screen layout))) = some (focus, tree)) ∧
    ∀ wins : List (Option TurboWin), wins.length ≤ layoutMaxWins → (∀ win, some win ∈ wins → win.Ints) →
      ∃ loaded, layoutLoadTurbo (some (composeSave file (.turbo ⟨focus, wins⟩))) = some loaded ∧
        loaded.focus = focus ∧ SameSlots loaded.wins wins := by
  refine ⟨fun tree small => ?_, fun wins few ints => ?_⟩
  · obtain ⟨short, ints⟩ := treeSerialize_small small.numbers small.positions
    have few := small.few
    have fits : (treeSerialize tree).length < 4095 := by omega
    refine ⟨_, dif_pos fits, ?_⟩
    have loaded := @layoutLoadScreen_screenText (layoutGeneration file + 1)
      ⟨focus, some tree, fun _ same => Option.some.inj same ▸ fits⟩ focused.int
      (fun _ same => Option.some.inj same ▸ ints)
    rw [map_some, focused.shown] at loaded
    exact loaded
  · obtain ⟨loaded, found, same, slots⟩ := @layoutLoadTurbo_turboText (layoutGeneration file + 1)
      ⟨focus, wins⟩ focused.int few ints
    exact ⟨loaded, found, same.trans focused.shown, slots⟩

def threePanes : LayoutTree := .split true 128 (.split false 64 (.leaf 0) (.leaf 1)) (.leaf 63)

def twoSlots : List (Option TurboWin) := [none, some ⟨-3, 2, 80, 24⟩]

theorem threePanes_small : threePanes.Small := ⟨by decide, by decide, by decide⟩

theorem twoSlots_ints (win : TurboWin) (member : some win ∈ twoSlots) : win.Ints := by
  simp only [twoSlots, mem_cons, Option.some.injEq, not_mem_nil, or_false, reduceCtorEq, false_or] at member
  subst member
  exact ⟨by decide, by decide, by decide, by decide⟩

theorem threePanes_read_back : (∃ layout, ScreenLayout.make 63 (some threePanes) = some layout ∧
      layoutLoadScreen (some (composeSave none (.screen layout))) = some (63, threePanes)) ∧
    ∃ loaded, layoutLoadTurbo (some (composeSave none (.turbo ⟨63, twoSlots⟩))) = some loaded ∧
      loaded.focus = 63 ∧ SameSlots loaded.wins twoSlots :=
  have saved := layouts_read_back none ⟨by decide, by decide⟩
  ⟨saved.1 threePanes threePanes_small, saved.2 twoSlots (by decide) twoSlots_ints⟩

end Lumimux.Sessdir
