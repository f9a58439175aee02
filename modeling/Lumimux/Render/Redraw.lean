import Lumimux.Render.Render

/-!
# Drawing a frame again

A frame is drawn again without a byte exactly when its shadow has reached a fixed point (`redraw_quiet_iff`): skipped
blanks and erased runs leave other blanks in it.
-/

namespace Lumimux.Librender
open Lib Vt List

theorem take_takeWhile {α : Type} (p : α → Bool) (l : List α) : l.take (l.takeWhile p).length = l.takeWhile p := by
  have whole : (l.takeWhile p ++ l.dropWhile p).take (l.takeWhile p).length = l.takeWhile p := take_left
  rwa [takeWhile_append_dropWhile] at whole

theorem cellEq_refl (c : Cell) : cellEq c c = true := by simp [cellEq]

theorem cellEq_clear_iff {c} (blank : cellIsBlank c = true) :
    cellEq c Cell.clear = true ↔ c.codepoint = space ∧ c.width = 1 := by
  simp only [cellIsBlank, spaceLike, decide_eq_true_eq] at blank
  obtain ⟨⟨-, attrs⟩, fg, bg⟩ := blank
  simp only [cellEq, Cell.clear, decide_eq_true_eq, attrs, fg, bg]
  tauto

theorem cellEq_erase_iff {c bg} (zone : spaceLike c = true ∧ c.style.bg = bg) :
    cellEq c (Cell.erase bg) = true ↔ c.codepoint = space ∧ c.style.fg = .default ∧ c.width = 1 := by
  simp only [spaceLike, decide_eq_true_eq] at zone
  obtain ⟨⟨-, attrs⟩, ground⟩ := zone
  simp only [cellEq, Cell.erase, Cell.clear, decide_eq_true_eq, attrs, ground]
  tauto

theorem trailEl_spec {hasBce cs start bg} (found : trailEl hasBce cs = some (start, bg)) :
    start + 3 ≤ cs.length ∧ ∀ c ∈ cs.drop start, spaceLike c = true ∧ c.style.bg = bg := by
  unfold trailEl findTrailEl at found
  split at found
  · split at found
    · cases found
    · rename_i last more reversed
      dsimp only at found
      split at found
      · cases found
      · rename_i long
        obtain ⟨rfl, rfl⟩ := Prod.mk.inj (Option.some.inj found)
        have short : (cs.reverse.takeWhile fun c => spaceLike c && c.style.bg = last.style.bg).length ≤ cs.length := by
          exact (takeWhile_sublist _).length_le.trans length_reverse.le
        refine ⟨by omega, fun c member => ?_⟩
        rw [← mem_reverse, ← take_reverse, take_takeWhile] at member
        simpa using mem_takeWhile_imp member
  · cases found

def fullShadow (p : Cell × Cell) : Cell := if cellIsBlank p.1 then p.2 else p.1

def diffShadow (p : Cell × Cell) : Cell := if unchanged p then p.2 else p.1

theorem fullCells_shadow (row col : Int) (ps : List (Cell × Cell)) (d : Draw) :
    (fullCells row col ps d).2 = ps.map fullShadow := by
  induction ps generalizing col d with
  | nil => rfl
  | cons p rest ih =>
    obtain ⟨c, s⟩ := p
    rw [fullCells]
    split
    · rename_i blank
      simp only [ih, map_cons, fullShadow, if_pos blank]
    · rename_i visible
      simp only [ih, map_cons, fullShadow, if_neg visible]

theorem diffCells_shadow (row : Int) (skip : Nat) (col : Int) (ps : List (Cell × Cell)) (d : Draw)
    (gap : ∀ p ∈ ps.take skip, unchanged p = true) : (diffCells row skip col ps d).2 = ps.map diffShadow := by
  induction ps generalizing skip col d with
  | nil => cases skip <;> rfl
  | cons p rest ih =>
    obtain ⟨c, s⟩ := p
    cases skip with
    | succ skip =>
      have same : unchanged (c, s) = true := gap _ (by simp)
      rw [diffCells]
      simp only [ih skip _ _ (fun p member => gap p (by simp [member])), map_cons, diffShadow, if_pos same]
    | zero =>
      rw [diffCells]
      split
      · rename_i same
        replace same : unchanged (c, s) = true := same
        dsimp only
        split
        · simp only [ih 0 _ _ (by simp), map_cons, diffShadow, if_pos same]
        · have rest_gap : ∀ p ∈ rest.take (1 + (rest.takeWhile unchanged).length - 1), unchanged p = true := by
            rw [Nat.add_sub_cancel_left, take_takeWhile]
            exact fun p member => mem_takeWhile_imp member
          simp only [ih _ _ _ rest_gap, map_cons, diffShadow, if_pos same]
      · rename_i differs
        replace differs : ¬ unchanged (c, s) = true := differs
        simp only [ih 0 _ _ (by simp), map_cons, diffShadow, if_neg differs]

theorem map_diffShadow {ps : List (Cell × Cell)} (same : ∀ p ∈ ps, unchanged p = true) : ps.map diffShadow = ps.map Prod.snd :=
  map_congr_left fun p member => if_pos (same p member)

theorem diffScan_shadow (row : Int) (ps : List (Cell × Cell)) (d : Draw) : (diffScan row ps d).2 = ps.map diffShadow := by
  have front : ∀ p ∈ ps.takeWhile unchanged, unchanged p = true := fun p member => mem_takeWhile_imp member
  have back : ∀ p ∈ (ps.dropWhile unchanged).rtakeWhile unchanged, unchanged p = true :=
    fun p member => mem_rtakeWhile_imp member
  have whole : ps = ps.takeWhile unchanged ++
      ((ps.dropWhile unchanged).rdropWhile unchanged ++ (ps.dropWhile unchanged).rtakeWhile unchanged) := by
    rw [rdropWhile_append_rtakeWhile, takeWhile_append_dropWhile]
  unfold diffScan
  generalize ps.takeWhile unchanged = before at front whole ⊢
  generalize (ps.dropWhile unchanged).rdropWhile unchanged = range at whole ⊢
  generalize (ps.dropWhile unchanged).rtakeWhile unchanged = after at back whole
  subst whole
  dsimp only
  split
  · rename_i none
    subst none
    rw [nil_append, map_diffShadow]
    simp only [mem_append]
    rintro p (inFront | inBack)
    · exact front p inFront
    · exact back p inBack
  · rw [diffCells_shadow _ _ _ _ _ (by simp)]
    simp only [map_append, map_diffShadow front, map_diffShadow back, ← append_assoc,
      drop_left' length_append]

theorem length_pairUp (cs ss : List Cell) : (pairUp cs ss).length = cs.length := by
  induction cs generalizing ss with
  | nil => rfl
  | cons c cs ih => cases ss <;> simp only [pairUp, length_cons, ih]

theorem map_fst_pairUp (cs ss : List Cell) : (pairUp cs ss).map Prod.fst = cs := by
  induction cs generalizing ss with
  | nil => rfl
  | cons c cs ih => cases ss <;> simp only [pairUp, map_cons, ih]

theorem pairUp_map (f : Cell × Cell → Cell) (cs ss rest : List Cell) :
    pairUp cs ((pairUp cs ss).map f ++ rest) = (pairUp cs ss).map fun p => (p.1, f p) := by
  induction cs generalizing ss with
  | nil => rfl
  | cons c cs ih => cases ss <;> simp only [pairUp, map_cons, cons_append, ih]

theorem pairUp_replicate (e : Cell) (cs rest : List Cell) :
    pairUp cs (replicate cs.length e ++ rest) = cs.map fun c => (c, e) := by
  induction cs with
  | nil => rfl
  | cons c cs ih => simp only [length_cons, replicate_succ, cons_append, pairUp, ih, map_cons]

theorem pairUp_erased (f : Cell × Cell → Cell) (e : Cell) (cs ss rest : List Cell) {start} (inside : start ≤ cs.length) :
    pairUp cs (((pairUp cs ss).take start).map f ++ (replicate (cs.length - start) e ++ rest)) =
      (((pairUp cs ss).take start).map fun p => (p.1, f p)) ++ (cs.drop start).map fun c => (c, e) := by
  induction cs generalizing ss start with
  | nil => simp [pairUp]
  | cons c cs ih =>
    cases start with
    | zero => exact pairUp_replicate e (c :: cs) rest
    | succ start =>
      have inside : start ≤ cs.length := Nat.le_of_succ_le_succ inside
      cases ss <;>
        simp only [pairUp, length_cons, take_succ_cons, map_cons, cons_append, Nat.add_sub_add_right,
          drop_succ_cons, ih _ inside]

theorem pairUp_clear {cs ss} (clear : ∀ s ∈ ss, s = Cell.clear) : pairUp cs ss = cs.map fun c => (c, Cell.clear) := by
  induction cs generalizing ss with
  | nil => rfl
  | cons c cs ih =>
    cases ss with
    | nil => rw [pairUp, ih clear, map_cons]
    | cons s ss =>
      rw [pairUp, ih fun s member => clear s (mem_cons_of_mem _ member), clear s mem_cons_self, map_cons]

def RowQuiet (hasBce : Bool) (cs ss : List Cell) : Prop :=
  useEl hasBce cs (pairUp cs ss) = none ∧ ∀ p ∈ pairUp cs ss, unchanged p = true

/-- The blanks of the row are as `render_cells_full` leaves them in the shadow. -/
def FullSteady (hasBce : Bool) (cs : List Cell) : Prop :=
  let blank (c : Cell) := cellIsBlank c = true → c.codepoint = space ∧ c.width = 1
  match trailEl hasBce cs with
  | none => ∀ c ∈ cs, blank c
  | some (start, _) =>
    (∀ c ∈ cs.take start, blank c) ∧ ∀ c ∈ cs.drop start, c.codepoint = space ∧ c.style.fg = .default ∧ c.width = 1

/-- The erasable run of the row is of plain spaces. -/
def DiffSteady (hasBce : Bool) (cs ss : List Cell) : Prop :=
  match trailEl hasBce cs with
  | none => True
  | some (start, _) => ∀ c ∈ cs.drop start,
      c.codepoint = space ∧ c.style.fg = .default ∧ (useEl hasBce cs (pairUp cs ss) ≠ none → c.width = 1)

theorem useEl_none {hasBce cs} (none : trailEl hasBce cs = none) (ps : List (Cell × Cell)) : useEl hasBce cs ps = .none := by
  simp only [useEl, none]

theorem useEl_eq_none_iff {hasBce cs start bg} (found : trailEl hasBce cs = some (start, bg)) (ps : List (Cell × Cell)) :
    useEl hasBce cs ps = none ↔ ∀ p ∈ ps.drop start, p.2.codepoint = space ∧ p.2.style = { bg := bg } := by
  simp only [useEl, found]
  split
  · rename_i shows
    simp only [reduceCtorEq, false_iff, not_forall]
    obtain ⟨p, member, differs⟩ := any_eq_true.mp shows
    refine ⟨p, member, ?_⟩
    rw [not_and_or]
    simpa using differs
  · rename_i erased
    simp only [true_iff]
    intro p member
    have same := any_eq_false.mp (Bool.not_eq_true _ ▸ erased) p member
    simpa using same

theorem unchanged_diffShadow (p : Cell × Cell) : unchanged (p.1, diffShadow p) = true := by
  unfold diffShadow
  split
  · assumption
  · exact cellEq_refl p.1

theorem unchanged_fullShadow_iff (c : Cell) :
    unchanged (c, fullShadow (c, Cell.clear)) = true ↔ (cellIsBlank c = true → c.codepoint = space ∧ c.width = 1) := by
  unfold fullShadow
  split
  · rename_i blank
    exact (cellEq_clear_iff blank).trans ⟨fun h _ => h, fun h => h blank⟩
  · rename_i visible
    exact ⟨fun _ blank => absurd blank visible, fun _ => cellEq_refl c⟩

theorem rowQuiet_erased_iff {hasBce cs ss start bg} (found : trailEl hasBce cs = some (start, bg)) (f : Cell × Cell → Cell)
    (rest : List Cell) :
    RowQuiet hasBce cs (((pairUp cs ss).take start).map f ++ (shadowSetEl (cs.length - start) bg ++ rest)) ↔
      (∀ p ∈ (pairUp cs ss).take start, unchanged (p.1, f p) = true) ∧
        ∀ c ∈ cs.drop start, c.codepoint = space ∧ c.style.fg = .default ∧ c.width = 1 := by
  obtain ⟨room, zone⟩ := trailEl_spec found
  have inside : start ≤ cs.length := by omega
  have erased : ∀ c ∈ cs.drop start, unchanged (c, Cell.erase bg) = true ↔
      c.codepoint = space ∧ c.style.fg = .default ∧ c.width = 1 := fun c member => cellEq_erase_iff (zone c member)
  have length : (((pairUp cs ss).take start).map fun p => (p.1, f p)).length = start := by
    rw [length_map, length_take, length_pairUp, min_eq_left inside]
  rw [RowQuiet, shadowSetEl, pairUp_erased f _ cs ss rest inside, useEl_eq_none_iff found, drop_left' length]
  simp only [forall_mem_append, forall_mem_map]
  constructor
  · rintro ⟨-, front, back⟩
    exact ⟨front, fun c member => (erased c member).mp (back c member)⟩
  · rintro ⟨front, back⟩
    exact ⟨fun c _ => ⟨rfl, rfl⟩, front, fun c member => (erased c member).mpr (back c member)⟩

theorem fullRow_quiet_iff (hasBce : Bool) (row : Int) (cs : List Cell) {ss} (clear : ∀ s ∈ ss, s = Cell.clear) (d : Draw) :
    RowQuiet hasBce cs (fullRow hasBce row cs ss d).2 ↔ FullSteady hasBce cs := by
  unfold fullRow FullSteady
  cases trail : trailEl hasBce cs with
  | none =>
    simp only [fullCells_shadow]
    rw [RowQuiet, pairUp_map, pairUp_clear clear]
    simp only [useEl_none trail, true_and, map_map, forall_mem_map, Function.comp, unchanged_fullShadow_iff]
  | some found =>
    obtain ⟨start, bg⟩ := found
    simp only [fullCells_shadow, rowQuiet_erased_iff trail]
    rw [pairUp_clear clear, ← map_take]
    simp only [forall_mem_map, unchanged_fullShadow_iff]

theorem trailEl_of_useEl {hasBce cs ps start bg} (use : useEl hasBce cs ps = some (start, bg)) :
    trailEl hasBce cs = some (start, bg) := by
  unfold useEl at use
  split at use
  · cases use
  · rename_i start' bg' found
    split at use
    · rw [found, use]
    · cases use

section
variable {hasBce : Bool} {row : Int} {cs ss : List Cell}

theorem diffRow_erase {start bg} (use : useEl hasBce cs (pairUp cs ss) = some (start, bg)) (d : Draw) :
    diffRow hasBce row cs ss d =
      (((diffScan row ((pairUp cs ss).take start) d.open).1).eraseTail row start bg,
        ((pairUp cs ss).take start).map diffShadow ++ (shadowSetEl (cs.length - start) bg ++ ss.drop cs.length)) := by
  simp only [diffRow, use, diffScan_shadow]

theorem diffRow_scan (use : useEl hasBce cs (pairUp cs ss) = none)
    (changes : ¬ ∀ p ∈ pairUp cs ss, unchanged p = true) (d : Draw) : diffRow hasBce row cs ss d =
      ((diffScan row (pairUp cs ss) d.open).1, (pairUp cs ss).map diffShadow ++ ss.drop cs.length) := by
  simp only [diffRow, use, diffScan_shadow]
  rw [if_neg (mt all_eq_true.mp changes)]

theorem diffRow_quiet (quiet : RowQuiet hasBce cs ss) (d : Draw) : diffRow hasBce row cs ss d = (d, ss) := by
  simp only [diffRow, quiet.1]
  rw [if_pos (all_eq_true.mpr quiet.2)]

end

theorem diffShadow_erased_iff {p bg} (zone : spaceLike p.1 = true ∧ p.1.style.bg = bg)
    (erased : p.2.codepoint = space ∧ p.2.style = { bg := bg }) :
    (diffShadow p).codepoint = space ∧ (diffShadow p).style = { bg := bg } ↔
      p.1.codepoint = space ∧ p.1.style.fg = .default := by
  unfold diffShadow
  split
  · rename_i same
    simp only [unchanged, cellEq, decide_eq_true_eq] at same
    simp only [same.1, same.2.2.2.1, erased, and_self]
  · simp only [spaceLike, decide_eq_true_eq] at zone
    constructor
    · rintro ⟨blank, style⟩
      exact ⟨blank, by rw [style]⟩
    · rintro ⟨blank, fg⟩
      exact ⟨blank, Style.ext zone.1.2 fg zone.2⟩

theorem diffRow_quiet_iff (hasBce : Bool) (row : Int) (cs ss : List Cell) (d : Draw) :
    RowQuiet hasBce cs (diffRow hasBce row cs ss d).2 ↔ DiffSteady hasBce cs ss := by
  cases use : useEl hasBce cs (pairUp cs ss) with
  | some found =>
    obtain ⟨start, bg⟩ := found
    have trail := trailEl_of_useEl use
    rw [diffRow_erase use, rowQuiet_erased_iff trail]
    simp only [DiffSteady, trail, use, ne_eq, reduceCtorEq, not_false_eq_true, forall_const, and_iff_right_iff_imp]
    exact fun _ p _ => unchanged_diffShadow p
  | none =>
    have shadow : RowQuiet hasBce cs (diffRow hasBce row cs ss d).2 ↔
        useEl hasBce cs ((pairUp cs ss).map fun p => (p.1, diffShadow p)) = none := by
      by_cases same : ∀ p ∈ pairUp cs ss, unchanged p = true
      · have kept : ((pairUp cs ss).map fun p => (p.1, diffShadow p)) = pairUp cs ss :=
          (map_congr_left fun p member => by rw [diffShadow, if_pos (same p member)]; rfl).trans (map_id _)
        rw [diffRow_quiet ⟨use, same⟩, kept]
        exact ⟨fun quiet => quiet.1, fun quiet => ⟨quiet, same⟩⟩
      · rw [diffRow_scan use same, RowQuiet, pairUp_map, and_iff_left_iff_imp]
        rintro - p member
        obtain ⟨p, -, rfl⟩ := mem_map.mp member
        exact unchanged_diffShadow p
    rw [shadow]
    cases trail : trailEl hasBce cs with
    | none => simp only [useEl_none trail, DiffSteady, trail]
    | some found =>
      obtain ⟨start, bg⟩ := found
      have erased := (useEl_eq_none_iff trail _).mp use
      have zone : ∀ p ∈ (pairUp cs ss).drop start, spaceLike p.1 = true ∧ p.1.style.bg = bg := by
        intro p member
        refine (trailEl_spec trail).2 p.1 ?_
        rw [← map_fst_pairUp cs ss, ← map_drop]
        exact mem_map_of_mem member
      have each : ∀ p ∈ (pairUp cs ss).drop start, ((diffShadow p).codepoint = space ∧ (diffShadow p).style = { bg := bg } ↔
          p.1.codepoint = space ∧ p.1.style.fg = .default) :=
        fun p member => diffShadow_erased_iff (zone p member) (erased p member)
      rw [useEl_eq_none_iff trail, ← map_drop]
      simp only [DiffSteady, trail, use, ne_eq, not_true_eq_false, false_imp_iff, and_true, forall_mem_map]
      rw [← map_fst_pairUp cs ss, ← map_drop, forall_mem_map, map_fst_pairUp]
      exact forall₂_congr each

/-- Each row with the one of the shadow has `P`. -/
def AllRows (P : List Cell → List Cell → Prop) : List (List Cell) → List (List Cell) → Prop
  | [], _ => True
  | cs :: frame, shadow => P cs (shadow.headD []) ∧ AllRows P frame shadow.tail

theorem fullRows_quiet_iff (hasBce : Bool) (row : Int) (frame : List (List Cell)) {shadow}
    (clear : ∀ ss ∈ shadow, ∀ s ∈ ss, s = Cell.clear) (d : Draw) :
    AllRows (RowQuiet hasBce) frame (fullRows hasBce row frame shadow d).2 ↔ ∀ cs ∈ frame, FullSteady hasBce cs := by
  induction frame generalizing row shadow d with
  | nil => simp [AllRows]
  | cons cs frame ih =>
    have first : ∀ s ∈ shadow.headD [], s = Cell.clear := by
      cases shadow with
      | nil =>
        intro s member
        cases member
      | cons ss shadow => exact clear ss mem_cons_self
    have rest : ∀ ss ∈ shadow.tail, ∀ s ∈ ss, s = Cell.clear := fun ss member => clear ss (mem_of_mem_tail member)
    simp only [fullRows, AllRows, headD_cons, tail_cons, fullRow_quiet_iff hasBce row cs first, ih _ rest,
      forall_mem_cons]

theorem diffRows_quiet_iff (hasBce : Bool) (row : Nat) (frame shadow : List (List Cell)) (d : Draw) :
    AllRows (RowQuiet hasBce) frame (diffRows hasBce none row frame shadow d).2 ↔
      AllRows (DiffSteady hasBce) frame shadow := by
  induction frame generalizing row shadow d with
  | nil => simp [AllRows]
  | cons cs frame ih =>
    simp only [diffRows, Option.map_none, Option.getD_none, if_true, AllRows, headD_cons, tail_cons,
      diffRow_quiet_iff, ih]

@[simp] theorem moveTo_opened (d : Draw) (row col : Int) : (d.moveTo row col).opened = d.opened := by
  unfold Draw.moveTo
  split <;> rfl

@[simp] theorem emitSgr_opened (d : Draw) (s : Style) : (d.emitSgr s).opened = d.opened := by
  unfold Draw.emitSgr
  split <;> rfl

@[simp] theorem emitCell_opened (d : Draw) (c : Cell) : (d.emitCell c).opened = d.opened := by
  unfold Draw.emitCell
  split
  · rfl
  · exact emitSgr_opened d _

@[simp] theorem eraseTail_opened (d : Draw) (row start : Int) (bg : Color) : (d.eraseTail row start bg).opened = d.opened := by
  show ((d.emitSgr _).moveTo row start).opened = d.opened
  rw [moveTo_opened, emitSgr_opened]

@[simp] theorem open_opened (d : Draw) : d.open.opened = true := by
  unfold Draw.open
  split
  · assumption
  · rfl

@[simp] theorem diffCells_opened (row : Int) (skip : Nat) (col : Int) (ps : List (Cell × Cell)) (d : Draw) :
    (diffCells row skip col ps d).1.opened = d.opened := by
  induction ps generalizing skip col d with
  | nil => cases skip <;> rfl
  | cons p rest ih =>
    cases skip with
    | succ skip => exact ih _ _ _
    | zero =>
      rw [diffCells]
      dsimp only
      split_ifs <;> simp only [ih, emitCell_opened, moveTo_opened]

@[simp] theorem diffScan_opened (row : Int) (ps : List (Cell × Cell)) (d : Draw) : (diffScan row ps d).1.opened = d.opened := by
  unfold diffScan
  dsimp only
  split_ifs
  · rfl
  · simp only [diffCells_opened, moveTo_opened]

theorem diffRow_opened {hasBce row cs ss d} (loud : ¬ RowQuiet hasBce cs ss ∨ d.opened = true) :
    (diffRow hasBce row cs ss d).1.opened = true := by
  cases use : useEl hasBce cs (pairUp cs ss) with
  | some found =>
    obtain ⟨start, bg⟩ := found
    simp only [diffRow_erase use, eraseTail_opened, diffScan_opened, open_opened]
  | none =>
    by_cases same : ∀ p ∈ pairUp cs ss, unchanged p = true
    · rw [diffRow_quiet ⟨use, same⟩]
      exact loud.resolve_left (not_not.mpr ⟨use, same⟩)
    · simp only [diffRow_scan use same, diffScan_opened, open_opened]

theorem diffRows_opened {hasBce row frame shadow d} (loud : ¬ AllRows (RowQuiet hasBce) frame shadow ∨ d.opened = true) :
    (diffRows hasBce none row frame shadow d).1.opened = true := by
  induction frame generalizing row shadow d with
  | nil => exact loud.resolve_left (not_not.mpr trivial)
  | cons cs frame ih =>
    simp only [diffRows, Option.map_none, Option.getD_none, if_true]
    refine ih ?_
    by_cases quiet : RowQuiet hasBce cs (shadow.headD [])
    · rw [diffRow_quiet quiet]
      exact loud.imp_left fun loud rest => loud ⟨quiet, rest⟩
    · exact .inr (diffRow_opened (.inl quiet))

theorem diffRows_quiet {hasBce row frame shadow} (quiet : AllRows (RowQuiet hasBce) frame shadow) (d : Draw) :
    (diffRows hasBce none row frame shadow d).1 = d := by
  induction frame generalizing row shadow with
  | nil => rfl
  | cons cs frame ih =>
    simp only [diffRows, Option.map_none, Option.getD_none, if_true, diffRow_quiet quiet.1, ih quiet.2]

def AtCursor (pen : Pen) (row col vis : Int) : Prop := pen.row = row ∧ pen.col = col ∧ pen.vis = vis

theorem moveTo_pen (d : Draw) (row col : Int) : (d.moveTo row col).pen = { d.pen with row := row, col := col } := by
  unfold Draw.moveTo
  split
  · rfl
  · rename_i there
    simp only [ne_eq, not_or, not_not] at there
    rw [← there.1, ← there.2]

theorem cursorVis_pen (d : Draw) (vis : Int) : (d.cursorVis vis).pen = { d.pen with vis := vis } := by
  unfold Draw.cursorVis
  split
  · rename_i same
    rw [same]
  · rfl

variable (r : Render) (cells : List Cell) (rows cols : Nat) (cursorRow cursorCol cursorVis : Int)

theorem full_atCursor :
    AtCursor (renderCellsFull r cells rows cols cursorRow cursorCol cursorVis).1.pen cursorRow cursorCol cursorVis := by
  simp only [renderCellsFull, Draw.emit, cursorVis_pen, AtCursor, and_self]

theorem diff_atCursor (rowDirty : Option (List Bool)) :
    AtCursor (renderCellsDiff r cells rows cols cursorRow cursorCol cursorVis rowDirty).1.pen cursorRow cursorCol cursorVis := by
  unfold renderCellsDiff
  dsimp only
  split
  · rename_i there
    exact ⟨there.2.1, there.2.2.1, there.2.2.2.symm⟩
  · simp only [Draw.emit, cursorVis_pen, moveTo_pen, AtCursor, and_self]

theorem diff_silent_iff (there : AtCursor r.pen cursorRow cursorCol cursorVis) :
    r.bytes (renderCellsDiff r cells rows cols cursorRow cursorCol cursorVis none).2 = [] ↔
      AllRows (RowQuiet r.hasBce) (frameRows cells cols (min rows r.rows) (min cols r.cols)) r.shadow := by
  obtain ⟨row, col, vis⟩ := there
  unfold renderCellsDiff
  dsimp only
  constructor
  · intro silent
    by_contra loud
    have opened := @diffRows_opened _ 0 _ _ { pen := r.pen } (.inl loud)
    rw [if_neg (by simp [opened]), Render.bytes, flatMap_eq_nil_iff] at silent
    have last : ascii "\x1b[?2026l" = [] := silent .syncEnd (by simp [Draw.emit])
    exact absurd last (by decide)
  · intro quiet
    rw [diffRows_quiet quiet, if_pos (by simp [row, col, vis])]
    rfl

/-- **Drawing a frame again** writes nothing exactly when its rows are steady: the condition on the blanks of the
frame after `render_cells_full`, and the one on the erasable runs after `render_cells_diff`. -/
theorem redraw_quiet_iff :
    let frame := frameRows cells cols (min rows r.rows) (min cols r.cols)
    let full := (renderCellsFull r cells rows cols cursorRow cursorCol cursorVis).1
    let diff := (renderCellsDiff r cells rows cols cursorRow cursorCol cursorVis none).1
    (full.bytes (renderCellsDiff full cells rows cols cursorRow cursorCol cursorVis none).2 = [] ↔
        ∀ cs ∈ frame, FullSteady r.hasBce cs) ∧
      (diff.bytes (renderCellsDiff diff cells rows cols cursorRow cursorCol cursorVis none).2 = [] ↔
        AllRows (DiffSteady r.hasBce) frame r.shadow) := by
  intro frame full diff
  have clear : ∀ ss ∈ shadowClear r.rows r.cols, ∀ s ∈ ss, s = Cell.clear := by
    intro ss inRows s inRow
    rw [eq_of_mem_replicate inRows] at inRow
    exact eq_of_mem_replicate inRow
  constructor
  · rw [diff_silent_iff full cells rows cols _ _ _ (full_atCursor ..)]
    exact fullRows_quiet_iff r.hasBce 0 frame clear _
  · rw [diff_silent_iff diff cells rows cols _ _ _ (diff_atCursor ..)]
    have same : diff.rows = r.rows ∧ diff.cols = r.cols ∧ diff.hasBce = r.hasBce ∧
        diff.shadow = (diffRows r.hasBce none 0 frame r.shadow { pen := r.pen }).2 := by
      simp only [diff, renderCellsDiff]
      split <;> exact ⟨rfl, rfl, rfl, rfl⟩
    rw [same.1, same.2.1, same.2.2.1, same.2.2.2]
    exact diffRows_quiet_iff r.hasBce 0 frame r.shadow _

def wideFrame : List Cell := [⟨0x6F22, {}, 2⟩, Cell.continuation, Cell.clear]

def tintedFrame : List Cell := replicate 3 ⟨space, { fg := .indexed 7, bg := .indexed 4 }, 1⟩

def written (r : Render) (cells : List Cell) : Bytes := r.bytes (renderCellsDiff r cells 1 3 0 0 1 none).2

theorem drawn_again : written (renderCellsFull (Render.new 1 3 none) wideFrame 1 3 0 0 1).1 wideFrame ≠ [] ∧
      written (renderCellsDiff (Render.new 1 3 none) tintedFrame 1 3 0 0 1 none).1 tintedFrame ≠ [] := by
  decide +kernel

end Lumimux.Librender
