import Lumimux.Render.Rows

/-!
# Drawing whole frames

A row drawn by either entry point is shown, and the shadow describes it, if SGR can set its attributes, no erased run
begins with a continuation, and no half of an old glyph is left (`CleanDiff`).
-/

namespace Lumimux.Librender
open Lib Utf8 Vt List Function

@[mk_iff] structure RowOk (w : WidthTable) (cols : Nat) (cs : List Cell) : Prop where
  length : cs.length = cols
  first : (cellAt cs 0).width ≠ 0
  pairs : ∀ q < cols, (cellAt cs q).width = 2 ↔ (cellAt cs (q + 1)).width = 0
  glyphs : ∀ q < cols, (cellAt cs q).width ≠ 0 →
    Scalar (cellAt cs q).codepoint ∧ runeWidth w (cellAt cs q).codepoint = (cellAt cs q).width

instance decidableRowOk (w : WidthTable) (cols : Nat) (cs : List Cell) : Decidable (RowOk w cols cs) :=
  decidable_of_iff' _ (rowOk_iff w cols cs)

def Settable (cs : List Cell) : Prop := ∀ c ∈ cs, c.width ≠ 0 → c.style.attrs.undercurl = false
  deriving Decidable

variable {w : WidthTable} {cs old ss : List Cell}

variable {q : Nat} {c s : Cell} {hasBce : Bool}

theorem cellAt_behind (behind : cs.length ≤ q) : cellAt cs q = Cell.clear := getD_eq_default _ _ behind

theorem cellAt_mem (inside : q < cs.length) : cellAt cs q ∈ cs := by
  rw [cellAt, getD_eq_getElem _ _ inside]
  exact getElem_mem inside

namespace RowOk

variable {cols : Nat}

section
variable (ok : RowOk w cols cs)
include ok

theorem room {q} (second : (cellAt cs q).width = 0) : q < cols := by
  by_contra behind
  rw [cellAt_behind (by rw [ok.length]; omega)] at second
  exact absurd second (by decide)

theorem whole : display.Whole (cellAt cs) where
  first := ok.first
  pairs q := by
    by_cases inside : q < cols
    · exact ok.pairs q inside
    · have here : cellAt cs q = Cell.clear := cellAt_behind (by rw [ok.length]; omega)
      have next : cellAt cs (q + 1) = Cell.clear := cellAt_behind (by rw [ok.length]; omega)
      rw [here, next]
      decide

theorem setting (settable : Settable cs) {F' line : Nat → Cell} (old : display.Whole F')
    (before : ∀ q < cols, display.Shown line F' q) : Setting w cols (cellAt cs) F' line where
  new := ok.whole
  old := old
  before := before
  room _ := ok.room
  glyphs q inside visible :=
    have glyph := ok.glyphs q inside visible
    ⟨glyph.1, glyph.2, settable _ (cellAt_mem (by rw [ok.length]; exact inside)) visible⟩

theorem space_of_blank {q} (inside : q < cols) (visible : (cellAt cs q).width ≠ 0) (blank : spaceLike (cellAt cs q) = true) :
    (cellAt cs q).codepoint = space ∧ (cellAt cs q).width = 1 ∧ (cellAt cs q).style.attrs = {} := by
  obtain ⟨-, width⟩ := ok.glyphs q inside visible
  have positive : 0 < runeWidth w (cellAt cs q).codepoint := by
    rw [width]
    omega
  have printable := printable_of_runeWidth_pos positive
  simp only [spaceLike, decide_eq_true_eq] at blank
  have isSpace : (cellAt cs q).codepoint = space := blank.1.resolve_right (by omega)
  rw [isSpace, runeWidth_ascii w (by decide) (by decide)] at width
  exact ⟨isSpace, by omega, blank.2⟩

theorem erased {hasBce start bg} (trail : trailEl hasBce cs = some (start, bg)) (visible : (cellAt cs start).width ≠ 0) :
    ∀ q, start ≤ q → q < cols → (cellAt cs q).width ≠ 0 ∧ Shows (Cell.erase bg) (cellAt cs q) := by
  have zone : ∀ q, start ≤ q → q < cols → spaceLike (cellAt cs q) = true ∧ (cellAt cs q).style.bg = bg := by
    intro q low inside
    refine (trailEl_spec trail).2 _ ?_
    have inList : q < cs.length := by rw [ok.length]; exact inside
    rw [cellAt, getD_eq_getElem _ _ inList, mem_drop_iff_getElem]
    exact ⟨q - start, by omega, by congr 1; omega⟩
  have seen : ∀ q, start ≤ q → q < cols → (cellAt cs q).width ≠ 0 := by
    intro q low
    induction q, low using Nat.le_induction with
    | base => exact fun _ => visible
    | succ q low ih =>
      intro inside second
      have blank := ok.space_of_blank (by omega) (ih (by omega)) (zone q low (by omega)).1
      have wide := (ok.pairs q (by omega)).mpr second
      omega
  intro q low inside
  have visible := seen q low inside
  obtain ⟨blank, ground⟩ := zone q low inside
  obtain ⟨isSpace, one, attrs⟩ := ok.space_of_blank inside visible blank
  refine ⟨visible, ⟨isSpace.symm, one.symm, ?_, ground.symm, .inr ⟨isSpace, attrs⟩⟩⟩
  rw [drawStyle, attrs]
  rfl

end

end RowOk

/-- The terminal's line shows the cells `F`, and the shadow `S` describes it. -/
structure LineShown (cols : Nat) (line F S : Nat → Cell) : Prop where
  shown : ∀ q < cols, display.Shown line F q
  shadow : ∀ q < cols, (F q).width ≠ 0 → Shows (line q) (S q)

section
variable (w : WidthTable) (remains : Remains) (t₀ : Term) (row : Nat) (F S : Nat → Cell) (T₀ : Nat → Nat → Cell)

structure RowDone (d : Draw) : Prop where
  tracked : Tracked w remains t₀ d
  shown : ∀ q < t₀.cols, display.Shown (d.screen w remains t₀ row) F q
  others : ∀ r, r ≠ row → d.screen w remains t₀ r = T₀ r

structure Drawn (d : Draw) : Prop extends RowDone w remains t₀ row F T₀ d where
  shadow : ∀ q < t₀.cols, (F q).width ≠ 0 → Shows (d.screen w remains t₀ row q) (S q)

/-- One round of a loop over the rows: `P` holds of its row and its shadow. -/
structure Round (P : (Nat → Cell) → List Cell → Prop) (done : Draw × List Cell) : Prop where
  tracked : Tracked w remains t₀ done.1
  line : P (done.1.screen w remains t₀ row) done.2
  others : ∀ r, r ≠ row → done.1.screen w remains t₀ r = T₀ r

end

variable {remains : Remains} {t₀ : Term} {row : Nat} {T₀ : Nat → Nat → Cell} {d : Draw}

def Stands (c s : Cell) : Prop := ∀ t, Shows t c → Shows t s

theorem stands_refl (c : Cell) : Stands c c := fun _ shows => shows

theorem stands_space (cellSpace : c.codepoint = space ∧ c.style.attrs = {})
    (shadowSpace : s.codepoint = space ∧ s.style.attrs = {}) (width : c.width = s.width) (bg : c.style.bg = s.style.bg) :
    Stands c s := by
  intro t shows
  refine ⟨shows.codepoint.trans (cellSpace.1.trans shadowSpace.1.symm), shows.width.trans width, shows.attrs.trans ?_,
    shows.bg.trans bg, .inr shadowSpace⟩
  rw [drawStyle, drawStyle, cellSpace.2, shadowSpace.2]

theorem attrs_of_drawStyle (none : (drawStyle c).attrs = {}) : c.style.attrs = {} := by
  have dim : (c.style.attrs.dim || c.style.attrs.predicted) = false := congrArg Attrs.dim none
  rw [Bool.or_eq_false_iff] at dim
  have whole : (drawStyle c).attrs = c.style.attrs := by
    rw [drawStyle]
    refine Attrs.ext rfl rfl rfl rfl rfl rfl ?_ rfl rfl dim.2.symm
    show (c.style.attrs.dim || c.style.attrs.predicted) = c.style.attrs.dim
    rw [dim.2, Bool.or_false]
  rw [← whole, none]

theorem stands_unchanged (same : unchanged (c, s) = true) (marks : (drawStyle c).attrs = (drawStyle s).attrs) : Stands c s := by
  simp only [unchanged, cellEq, decide_eq_true_eq] at same
  obtain ⟨codepoint, attrs, width, fg, bg⟩ := same
  intro t shows
  refine ⟨shows.codepoint.trans codepoint, shows.width.trans width, shows.attrs.trans marks, shows.bg.trans bg, ?_⟩
  rcases shows.fg with same | ⟨blank, none⟩
  · exact .inl (same.trans fg)
  · refine .inr ⟨codepoint.symm.trans blank, attrs_of_drawStyle ?_⟩
    rw [← marks, drawStyle, none]
    rfl

theorem stands_erase {bg} (erased : Shows (Cell.erase bg) c) : Stands c (Cell.erase bg) :=
  stands_space ⟨erased.codepoint.symm, attrs_of_drawStyle erased.attrs.symm⟩ ⟨rfl, rfl⟩ erased.width.symm erased.bg.symm

section
variable {F S : Nat → Cell}

theorem RowDone.drawn (done : RowDone w remains t₀ row F T₀ d) (stands : ∀ q < t₀.cols, (F q).width ≠ 0 → Stands (F q) (S q)) :
    Drawn w remains t₀ row F S T₀ d :=
  ⟨done, fun q inside visible => stands q inside visible _ ((Display.shown_first visible).mp (done.shown q inside))⟩

theorem RowPass.erase {F' : Nat → Cell} {start} (h : RowPass w remains t₀ row F F' T₀ d start) (new : display.Whole F)
    (inRows : row < t₀.rows) (inCols : start < t₀.cols) {bg}
    (shows : ∀ q, start ≤ q → q < t₀.cols → (F q).width ≠ 0 ∧ Shows (Cell.erase bg) (F q)) :
    RowDone w remains t₀ row F T₀ (d.eraseTail row start bg) := by
  obtain ⟨tracked, screen⟩ := eraseTail_tracked h.tracked inRows inCols bg
  refine ⟨tracked, ?_, ?_⟩
  · rw [screen, update_self]
    exact h.pass.erase new shows inCols
  · intro r other
    rw [screen, update_of_ne other]
    exact h.others r other

theorem RowPass.whole {F' : Nat → Cell} (h : RowPass w remains t₀ row F F' T₀ d t₀.cols) : RowDone w remains t₀ row F T₀ d :=
  ⟨h.tracked, h.pass.finish, h.others⟩

end

theorem cellAt_append_left {xs ys} (inside : q < xs.length) : cellAt (xs ++ ys) q = cellAt xs q :=
  getD_append _ _ _ _ inside

theorem cellAt_append_right {xs ys} (behind : xs.length ≤ q) : cellAt (xs ++ ys) q = cellAt ys (q - xs.length) :=
  getD_append_right _ _ _ _ behind

theorem getElem?_pairUp (inside : q < cs.length) : (pairUp cs ss)[q]? = some (cellAt cs q, cellAt ss q) := by
  induction cs generalizing ss q with
  | nil => exact absurd inside (Nat.not_lt_zero _)
  | cons c cs ih =>
    cases q with
    | zero => cases ss <;> rfl
    | succ q =>
      have later := @ih ss.tail q (Nat.lt_of_succ_lt_succ inside)
      cases ss <;> exact later

theorem cellAt_map_pairUp (f : Cell × Cell → Cell) (inside : q < cs.length) :
    cellAt ((pairUp cs ss).map f) q = f (cellAt cs q, cellAt ss q) := by
  rw [cellAt, getD_eq_getElem?_getD, getElem?_map, getElem?_pairUp inside]
  rfl

theorem cellAt_erased (f : Cell × Cell → Cell) (bg : Color) {start} (inside : q < cs.length) (room : start ≤ cs.length)
    (rest : List Cell) : cellAt (((pairUp cs ss).take start).map f ++ (shadowSetEl (cs.length - start) bg ++ rest)) q =
      if q < start then f (cellAt cs q, cellAt ss q) else Cell.erase bg := by
  have length : (((pairUp cs ss).take start).map f).length = start := by
    rw [length_map, length_take, length_pairUp, min_eq_left room]
  split
  · rename_i low
    rw [cellAt_append_left (by omega), map_take, ← cellAt_map_pairUp f inside]
    simp only [cellAt, getD_eq_getElem?_getD, getElem?_take, if_pos low]
  · rw [cellAt_append_right (by omega), length, cellAt_append_left (by rw [shadowSetEl, length_replicate]; omega)]
    exact getD_replicate _ (by omega)

@[mk_iff] structure CleanFull (hasBce : Bool) (cs : List Cell) : Prop where
  settable : Settable cs
  erases : ∀ run ∈ trailEl hasBce cs, (cellAt cs run.1).width ≠ 0

instance decidableCleanFull (hasBce : Bool) (cs : List Cell) : Decidable (CleanFull hasBce cs) :=
  decidable_of_iff' _ (cleanFull_iff hasBce cs)

theorem shows_clear : Shows Cell.clear Cell.clear := ⟨rfl, rfl, rfl, rfl, .inl rfl⟩

theorem whole_clear : display.Whole fun _ => Cell.clear := ⟨by decide, fun _ => by decide⟩

theorem shows_blank {cols} (ok : RowOk w cols cs) (inside : q < cols) (blank : cellIsBlank (cellAt cs q) = true)
    (visible : (cellAt cs q).width ≠ 0) : Shows Cell.clear (cellAt cs q) := by
  simp only [cellIsBlank, decide_eq_true_eq] at blank
  obtain ⟨like, fg, bg⟩ := blank
  obtain ⟨isSpace, one, attrs⟩ := ok.space_of_blank inside visible like
  refine ⟨isSpace.symm, one.symm, ?_, bg.symm, .inl fg.symm⟩
  rw [drawStyle, attrs]
  rfl

theorem fullRow_drawn (ok : RowOk w t₀.cols cs) (clean : CleanFull hasBce cs) (inRows : row < t₀.rows)
    (shadow : ∀ s ∈ ss, s = Cell.clear) (line : T₀ row = fun _ => Cell.clear) (tracked : Tracked w remains t₀ d)
    (screen : d.screen w remains t₀ = T₀) :
    Drawn w remains t₀ row (cellAt cs) (cellAt (fullRow hasBce row cs ss d).2) T₀ (fullRow hasBce row cs ss d).1 := by
  have setting : Setting w t₀.cols (cellAt cs) (fun _ => Cell.clear) (T₀ row) :=
    ok.setting clean.settable whole_clear fun q _ => (Display.shown_first (by decide)).mpr (by rw [line]; exact shows_clear)
  have start : RowPass w remains t₀ row (cellAt cs) (fun _ => Cell.clear) T₀ d 0 :=
    ⟨tracked, by rw [screen]; exact .start ok.whole, by rw [screen]; exact fun _ _ => rfl⟩
  have aligned : Aligned (cellAt cs) (cellAt ss) 0 (pairUp cs ss) :=
    aligned_pairUp (fun i => by rw [Nat.zero_add]) fun i => by rw [Nat.zero_add]
  have keeps : ∀ q < t₀.cols, cellIsBlank (cellAt cs q) = true → (cellAt cs q).width ≠ 0 →
      Cell.clear.width ≠ 0 ∧ Shows (T₀ row q) (cellAt cs q) := by
    intro q inside blank visible
    rw [line]
    exact ⟨by decide, shows_blank ok inside blank visible⟩
  have clear : ∀ q, cellAt ss q = Cell.clear := by
    intro q
    by_cases inside : q < ss.length
    · exact shadow _ (cellAt_mem inside)
    · exact cellAt_behind (by omega)
  have stands : ∀ q < t₀.cols, (cellAt cs q).width ≠ 0 → Stands (cellAt cs q) (fullShadow (cellAt cs q, cellAt ss q)) := by
    intro q inside visible
    unfold fullShadow
    split
    · rename_i blank
      rw [clear q]
      simp only [cellIsBlank, decide_eq_true_eq] at blank
      obtain ⟨isSpace, one, attrs⟩ := ok.space_of_blank inside visible blank.1
      exact stands_space ⟨isSpace, attrs⟩ ⟨rfl, rfl⟩ one blank.2.2
    · exact stands_refl _
  unfold fullRow
  split
  · have passed := fullCells_pass setting inRows aligned (by rw [length_pairUp, ok.length, Nat.zero_add])
      (by rw [length_pairUp, ok.length, Nat.zero_add]; exact keeps) start
    rw [length_pairUp, ok.length, Nat.zero_add] at passed
    refine passed.whole.drawn fun q inside visible => ?_
    have inList : q < cs.length := by rw [ok.length]; exact inside
    dsimp only
    rw [fullCells_shadow, cellAt_append_left (by rw [length_map, length_pairUp]; exact inList), cellAt_map_pairUp _ inList]
    exact stands q inside visible
  · rename_i begin bg trail
    obtain ⟨room, zone⟩ := trailEl_spec trail
    have length : ((pairUp cs ss).take begin).length = begin := by
      rw [length_take, length_pairUp]
      omega
    have inCols : begin < t₀.cols := by rw [← ok.length]; omega
    have front : Aligned (cellAt cs) (cellAt ss) 0 ((pairUp cs ss).take begin) := by
      rw [← take_append_drop begin (pairUp cs ss)] at aligned
      exact (aligned_append.mp aligned).1
    have passed := fullCells_pass setting inRows front (by omega) (fun q low => keeps q (by omega)) start
    rw [length, Nat.zero_add] at passed
    have erased := ok.erased trail (clean.erases _ trail)
    refine (passed.erase ok.whole inRows inCols erased).drawn fun q inside visible => ?_
    have inList : q < cs.length := by rw [ok.length]; exact inside
    dsimp only
    rw [fullCells_shadow, cellAt_erased _ _ inList (by omega)]
    split
    · exact stands q inside visible
    · exact stands_erase (erased q (by omega) inside).2

def scanned (hasBce : Bool) (cs ss : List Cell) : List (Cell × Cell) :=
  match useEl hasBce cs (pairUp cs ss) with
  | none => pairUp cs ss
  | some (start, _) => (pairUp cs ss).take start

@[mk_iff] structure CleanDiff (hasBce : Bool) (cs old ss : List Cell) : Prop where
  settable : Settable cs
  erases : ∀ run ∈ useEl hasBce cs (pairUp cs ss), (cellAt cs run.1).width ≠ 0
  tight : Tight (changedRange (scanned hasBce cs ss))
  halves : ∀ q < (scanned hasBce cs ss).length, unchanged (cellAt cs q, cellAt ss q) = true → (cellAt cs q).width ≠ 0 →
    (cellAt old q).width ≠ 0

instance decidableCleanDiff (hasBce : Bool) (cs old ss : List Cell) : Decidable (CleanDiff hasBce cs old ss) :=
  decidable_of_iff' _ (cleanDiff_iff hasBce cs old ss)

def SameMarks (hasBce : Bool) (cs ss : List Cell) : Prop :=
  ∀ q < (scanned hasBce cs ss).length, unchanged (cellAt cs q, cellAt ss q) = true → (cellAt cs q).width ≠ 0 →
    (drawStyle (cellAt cs q)).attrs = (drawStyle (cellAt ss q)).attrs

theorem unchanged_symm (same : unchanged (c, s) = true) : unchanged (s, c) = true := by
  simp only [unchanged, cellEq, decide_eq_true_eq] at same ⊢
  obtain ⟨codepoint, attrs, width, fg, bg⟩ := same
  exact ⟨codepoint.symm, attrs.symm, width.symm, fg.symm, bg.symm⟩

theorem open_tracked (tracked : Tracked w remains t₀ d) :
    Tracked w remains t₀ d.open ∧ d.open.screen w remains t₀ = d.screen w remains t₀ := by
  unfold Draw.open
  split
  · exact ⟨tracked, rfl⟩
  · exact still_tracked tracked rfl trivial (fun _ => rfl) rfl rfl rfl

theorem diffRow_done {F F' : Nat → Cell} (setting : Setting w t₀.cols F F' (T₀ row)) (inRows : row < t₀.rows)
    (length : cs.length = t₀.cols) (agrees : Agrees F F' (T₀ row) (writes (scanned hasBce cs ss)) (scanned hasBce cs ss) 0)
    (tight : Tight (changedRange (scanned hasBce cs ss)))
    (erased : ∀ run ∈ useEl hasBce cs (pairUp cs ss), ∀ q, run.1 ≤ q → q < t₀.cols → (F q).width ≠ 0 ∧ Shows (Cell.erase run.2) (F q))
    (tracked : Tracked w remains t₀ d) (line : d.screen w remains t₀ = T₀) :
    RowDone w remains t₀ row F T₀ (diffRow hasBce row cs ss d).1 := by
  have start : ∀ {e : Draw}, Tracked w remains t₀ e ∧ e.screen w remains t₀ = d.screen w remains t₀ →
      RowPass w remains t₀ row F F' T₀ e 0 := by
    intro e same
    rw [line] at same
    exact ⟨same.1, by rw [same.2]; exact .start setting.new, by rw [same.2]; exact fun _ _ => rfl⟩
  cases use : useEl hasBce cs (pairUp cs ss) with
  | none =>
    have all : scanned hasBce cs ss = pairUp cs ss := by simp only [scanned, use]
    rw [all] at agrees tight
    have passed : ∀ {e : Draw}, RowPass w remains t₀ row F F' T₀ e 0 →
        RowPass w remains t₀ row F F' T₀ (diffScan row (pairUp cs ss) e).1 t₀.cols := by
      intro e h
      have whole := diffScan_pass setting inRows (by rw [length_pairUp, length]) agrees tight h
      rwa [length_pairUp, length] at whole
    by_cases same : ∀ p ∈ pairUp cs ss, unchanged p = true
    · have silent : (diffScan row (pairUp cs ss) d).1 = d := by
        have none : (pairUp cs ss).dropWhile unchanged = [] := dropWhile_eq_nil_iff.mpr same
        simp only [diffScan, none]
        rfl
      rw [diffRow_quiet ⟨use, same⟩]
      have whole := passed (start ⟨tracked, rfl⟩)
      rw [silent] at whole
      exact whole.whole
    · rw [diffRow_scan use same]
      exact (passed (start (open_tracked tracked))).whole
  | some found =>
    obtain ⟨begin, bg⟩ := found
    have room := (trailEl_spec (trailEl_of_useEl use)).1
    have part : scanned hasBce cs ss = (pairUp cs ss).take begin := by simp only [scanned, use]
    have partLength : ((pairUp cs ss).take begin).length = begin := by
      rw [length_take, length_pairUp]
      omega
    rw [part] at agrees tight
    have passed := diffScan_pass setting inRows (by omega) agrees tight (start (open_tracked tracked))
    rw [partLength] at passed
    rw [diffRow_erase use]
    exact passed.erase setting.new inRows (by omega) (erased _ use)

theorem getElem?_scanned {p} (here : (scanned hasBce cs ss)[q]? = some p) :
    p = (cellAt cs q, cellAt ss q) ∧ q < cs.length := by
  have whole : (pairUp cs ss)[q]? = some p := by
    unfold scanned at here
    split at here
    · exact here
    · rw [getElem?_take] at here
      split at here
      · exact here
      · cases here
  have inside : q < cs.length := by
    have low := (List.getElem?_eq_some_iff.mp whole).1
    rwa [length_pairUp] at low
  rw [getElem?_pairUp inside, Option.some.injEq] at whole
  exact ⟨whole.symm, inside⟩

/-- The shadow behind a row: the scanned cells have `diffShadow`, the erased ones the erased cell. -/
theorem diffRow_shadow {P : Cell → Prop} (inside : q < cs.length)
    (kept : q < (scanned hasBce cs ss).length → P (diffShadow (cellAt cs q, cellAt ss q)))
    (erased : ∀ run ∈ useEl hasBce cs (pairUp cs ss), run.1 ≤ q → P (Cell.erase run.2)) :
    P (cellAt (diffRow hasBce row cs ss d).2 q) := by
  cases use : useEl hasBce cs (pairUp cs ss) with
  | none =>
    have all : scanned hasBce cs ss = pairUp cs ss := by simp only [scanned, use]
    rw [all, length_pairUp] at kept
    by_cases same : ∀ p ∈ pairUp cs ss, unchanged p = true
    · rw [diffRow_quiet ⟨use, same⟩]
      have old := kept inside
      rwa [diffShadow, if_pos (same _ (mem_of_getElem? (getElem?_pairUp inside)))] at old
    · rw [diffRow_scan use same]
      dsimp only
      rw [cellAt_append_left (by rw [length_map, length_pairUp]; exact inside), cellAt_map_pairUp _ inside]
      exact kept inside
  | some found =>
    obtain ⟨begin, bg⟩ := found
    have room := (trailEl_spec (trailEl_of_useEl use)).1
    have part : (scanned hasBce cs ss).length = begin := by
      simp only [scanned, use]
      rw [length_take, length_pairUp]
      omega
    rw [diffRow_erase use]
    dsimp only
    rw [cellAt_erased _ _ inside (by omega)]
    split
    · exact kept (by omega)
    · exact erased _ use (by dsimp only; omega)

theorem diffRow_drawn (ok : RowOk w t₀.cols cs) (oldOk : RowOk w t₀.cols old) (clean : CleanDiff hasBce cs old ss)
    (marks : SameMarks hasBce cs ss) (inRows : row < t₀.rows) (tracked : Tracked w remains t₀ d)
    (before : LineShown t₀.cols (d.screen w remains t₀ row) (cellAt old) (cellAt ss)) :
    Drawn w remains t₀ row (cellAt cs) (cellAt (diffRow hasBce row cs ss d).2) (d.screen w remains t₀)
      (diffRow hasBce row cs ss d).1 := by
  have setting := ok.setting clean.settable oldOk.whole before.shown
  have erased : ∀ run ∈ useEl hasBce cs (pairUp cs ss), ∀ q, run.1 ≤ q → q < t₀.cols →
      (cellAt cs q).width ≠ 0 ∧ Shows (Cell.erase run.2) (cellAt cs q) :=
    fun run use => ok.erased (trailEl_of_useEl use) (clean.erases run use)
  -- a cell that did not change is shown: the shadow describes the terminal
  have agrees : Agrees (cellAt cs) (cellAt old) (d.screen w remains t₀ row) (writes (scanned hasBce cs ss))
      (scanned hasBce cs ss) 0 := by
    intro q p here
    obtain ⟨rfl, inside⟩ := getElem?_scanned here
    rw [Nat.zero_add]
    split
    · rfl
    · rename_i passed
      have low := (List.getElem?_eq_some_iff.mp here).1
      have same := unchanged_of_unwritten here (Bool.not_eq_true _ ▸ passed)
      intro visible
      have first := clean.halves q low same visible
      have shadow := before.shadow q (by rw [← ok.length]; exact inside) first
      exact ⟨first, stands_unchanged (unchanged_symm same) (marks q low same visible).symm _ shadow⟩
  refine (diffRow_done setting inRows ok.length agrees clean.tight erased tracked rfl).drawn fun q inside visible => ?_
  refine diffRow_shadow (by rw [ok.length]; exact inside) (fun low => ?_)
    fun run use low => stands_erase (erased run use q low inside).2
  unfold diffShadow
  split
  · rename_i same
    exact stands_unchanged same (marks q low same visible)
  · exact stands_refl _

theorem Drawn.lineShown {F S : Nat → Cell} (drawn : Drawn w remains t₀ row F S T₀ d) :
    LineShown t₀.cols (d.screen w remains t₀ row) F S := ⟨drawn.shown, drawn.shadow⟩

def rowAt (rows : List (List Cell)) (i : Nat) : List Cell := rows.getD i []

def eachRow (draw : Nat → List Cell → List Cell → Draw → Draw × List Cell) :
    Nat → List (List Cell) → List (List Cell) → Draw → Draw × List (List Cell)
  | _, [], shadow, d => (d, shadow)
  | row, cs :: frame, shadow, d =>
    let first := draw row cs (shadow.headD []) d
    let rest := eachRow draw (row + 1) frame shadow.tail first.1
    (rest.1, first.2 :: rest.2)

theorem fullRows_eq (hasBce : Bool) (row : Nat) (frame shadow : List (List Cell)) (d : Draw) :
    fullRows hasBce row frame shadow d = eachRow (fun row => fullRow hasBce row) row frame shadow d := by
  induction frame generalizing row shadow d with
  | nil => rfl
  | cons cs frame ih =>
    have cast : (row : Int) + 1 = (row + 1 : Nat) := by omega
    simp only [fullRows, eachRow, cast, ih]

def flagged (rowDirty : Option (List Bool)) (row : Nat) : Bool := (rowDirty.map fun flags => flags.getD row false).getD true

def flaggedRow (hasBce : Bool) (rowDirty : Option (List Bool)) (row : Nat) (cs ss : List Cell) (d : Draw) : Draw × List Cell :=
  if flagged rowDirty row then diffRow hasBce row cs ss d else (d, ss)

theorem diffRows_eq (hasBce : Bool) (rowDirty : Option (List Bool)) (row : Nat) (frame shadow : List (List Cell)) (d : Draw) :
    diffRows hasBce rowDirty row frame shadow d = eachRow (flaggedRow hasBce rowDirty) row frame shadow d := by
  induction frame generalizing row shadow d with
  | nil => rfl
  | cons cs frame ih =>
    simp only [diffRows, eachRow, ih]
    rfl

theorem eachRow_drawn {draw : Nat → List Cell → List Cell → Draw → Draw × List Cell} {frame shadow}
    {P : Nat → (Nat → Cell) → List Cell → Prop}
    (round : ∀ i < frame.length, ∀ e, Tracked w remains t₀ e → e.screen w remains t₀ (row + i) = d.screen w remains t₀ (row + i) →
      Round w remains t₀ (row + i) (e.screen w remains t₀) (P (row + i)) (draw (row + i) (rowAt frame i) (rowAt shadow i) e))
    (tracked : Tracked w remains t₀ d) : Tracked w remains t₀ (eachRow draw row frame shadow d).1 ∧
      (∀ i < frame.length, P (row + i) ((eachRow draw row frame shadow d).1.screen w remains t₀ (row + i))
        (rowAt (eachRow draw row frame shadow d).2 i)) ∧
      ∀ r < row, (eachRow draw row frame shadow d).1.screen w remains t₀ r = d.screen w remains t₀ r := by
  induction frame generalizing row shadow d with
  | nil => exact ⟨tracked, fun i none => absurd none (Nat.not_lt_zero _), fun _ _ => rfl⟩
  | cons cs frame ih =>
    have first := round 0 (Nat.succ_pos _) d tracked rfl
    have head : rowAt shadow 0 = shadow.headD [] := by cases shadow <;> rfl
    rw [show rowAt (cs :: frame) 0 = cs from rfl, head, Nat.add_zero] at first
    have later : ∀ i, row + 1 + i = row + (i + 1) := fun i => by omega
    have shadowLater : ∀ i, rowAt shadow.tail i = rowAt shadow (i + 1) := by
      intro i
      cases shadow <;> rfl
    obtain ⟨restTracked, lines, earlier⟩ := @ih (row + 1) (draw row cs (shadow.headD []) d).1 shadow.tail
      (fun i inside => by
        rw [later, shadowLater, first.others _ (by omega)]
        exact round (i + 1) (Nat.succ_lt_succ inside))
      first.tracked
    rw [eachRow]
    refine ⟨restTracked, ?_, fun r low => (earlier r (by omega)).trans (first.others r (by omega))⟩
    intro i inside
    cases i with
    | zero =>
      have line := first.line
      rw [← earlier row (Nat.lt_succ_self row)] at line
      exact line
    | succ i =>
      have shown := lines i (Nat.lt_of_succ_lt_succ inside)
      rw [later] at shown
      exact shown

end Lumimux.Librender
