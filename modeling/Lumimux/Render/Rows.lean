import Mathlib.Data.List.GetD
import Lumimux.Render.Strokes

/-!
# Drawing one row

Each loop over a row carries a `RowPass`: in front of its column the terminal shows the new row, behind it the old one.
-/

namespace Lumimux.Librender
open Lib Utf8 Vt List Function

def cellAt (cs : List Cell) (q : Nat) : Cell := cs.getD q Cell.clear

structure Setting (w : WidthTable) (cols : Nat) (F F' line : Nat → Cell) : Prop where
  new : display.Whole F
  old : display.Whole F'
  before : ∀ q < cols, display.Shown line F' q
  room : ∀ q, (F q).width = 0 → q < cols
  glyphs : ∀ q < cols, (F q).width ≠ 0 → GlyphOk w (F q)

namespace Setting

variable {w : WidthTable} {cols : Nat} {F F' line : Nat → Cell}

theorem pairs (setting : Setting w cols F F' line) (q : Nat) : (F q).width = 2 ↔ (F (q + 1)).width = 0 := setting.new.pairs q

theorem span (setting : Setting w cols F F' line) {q} (inside : q < cols) (visible : (F q).width ≠ 0) :
    (F q).width = 1 ∨ (F q).width = 2 := by
  have := runeWidth_le_two w (F q).codepoint
  have := (setting.glyphs q inside visible).width
  omega

end Setting

section
variable (w : WidthTable) (remains : Remains) (t₀ : Term) (row : Nat) (F F' : Nat → Cell) (T₀ : Nat → Nat → Cell)

structure RowPass (d : Draw) (col : Nat) : Prop where
  tracked : Tracked w remains t₀ d
  pass : display.Pass F F' (T₀ row) t₀.cols (d.screen w remains t₀ row) col
  others : ∀ r, r ≠ row → d.screen w remains t₀ r = T₀ r

end

variable {w : WidthTable} {remains : Remains} {t₀ : Term} {row : Nat} {F F' : Nat → Cell} {T₀ : Nat → Nat → Cell} {d : Draw}
  {col : Nat}

namespace RowPass

section
variable (h : RowPass w remains t₀ row F F' T₀ d col)
include h

theorem skip (setting : Setting w t₀.cols F F' (T₀ row)) (inside : col < t₀.cols)
    (keeps : (F col).width ≠ 0 → (F' col).width ≠ 0 ∧ Shows (T₀ row col) (F col)) :
    RowPass w remains t₀ row F F' T₀ d (col + 1) :=
  ⟨h.tracked, h.pass.pass setting.new setting.old setting.room setting.before inside keeps, h.others⟩

theorem move (inRows : row < t₀.rows) {c} (inCols : c < t₀.cols) : RowPass w remains t₀ row F F' T₀ (d.moveTo row c) col := by
  obtain ⟨tracked, screen⟩ := moveTo_tracked h.tracked inRows inCols
  exact ⟨tracked, by rw [screen]; exact h.pass, by rw [screen]; exact h.others⟩

theorem draw (setting : Setting w t₀.cols F F' (T₀ row)) (inside : col < t₀.cols)
    (visible : (F col).width ≠ 0) (atRow : d.pen.row = row) (atCol : d.pen.col = col) :
    RowPass w remains t₀ row F F' T₀ (d.emitCell (F col)) (col + 1) ∧
      (d.emitCell (F col)).pen.row = row ∧ (d.emitCell (F col)).pen.col = (col + (F col).width : Nat) := by
  have ok := setting.glyphs col inside visible
  have span := setting.span inside visible
  have room : col + (F col).width ≤ t₀.cols := by
    rcases span with one | two
    · omega
    · have := setting.room (col + 1) ((setting.pairs col).mp two)
      omega
  obtain ⟨tracked, screen, penRow, penCol⟩ := emitCell_tracked h.tracked ok visible atRow atCol room
  refine ⟨⟨tracked, ?_, ?_⟩, penRow, penCol⟩
  · rw [screen, update_self]
    exact h.pass.put setting.new setting.old setting.before (remains.narrow _) (shows_printed (F col)) span
  · intro r other
    rw [screen, update_of_ne other]
    exact h.others r other

end

end RowPass

def Aligned (F S : Nat → Cell) : Nat → List (Cell × Cell) → Prop
  | _, [] => True
  | col, p :: rest => p = (F col, S col) ∧ Aligned F S (col + 1) rest

variable {S : Nat → Cell}

theorem aligned_append {xs ys} : Aligned F S col (xs ++ ys) ↔ Aligned F S col xs ∧ Aligned F S (col + xs.length) ys := by
  induction xs generalizing col with
  | nil => simp [Aligned]
  | cons p xs ih =>
    simp only [cons_append, Aligned, ih, length_cons, and_assoc]
    rw [show col + 1 + xs.length = col + (xs.length + 1) by omega]

theorem aligned_pairUp {cs ss} (atCells : ∀ i, F (col + i) = cellAt cs i) (atShadow : ∀ i, S (col + i) = cellAt ss i) :
    Aligned F S col (pairUp cs ss) := by
  induction cs generalizing ss col with
  | nil => exact trivial
  | cons c cs ih =>
    have first := atCells 0
    have shadow := atShadow 0
    have later : ∀ i, F (col + 1 + i) = cellAt cs i := fun i => by
      rw [show col + 1 + i = col + (i + 1) by omega]
      exact atCells (i + 1)
    cases ss with
    | nil | cons =>
      refine ⟨by rw [← Nat.add_zero col, first, shadow]; rfl, ih later fun i => ?_⟩
      rw [show col + 1 + i = col + (i + 1) by omega]
      exact atShadow (i + 1)

def Keeps (F F' line : Nat → Cell) (q : Nat) : Prop := (F q).width ≠ 0 → (F' q).width ≠ 0 ∧ Shows (line q) (F q)

theorem RowPass.skips (setting : Setting w t₀.cols F F' (T₀ row)) {n} (fits : col + n ≤ t₀.cols)
    (keeps : ∀ i < n, Keeps F F' (T₀ row) (col + i)) (h : RowPass w remains t₀ row F F' T₀ d col) :
    RowPass w remains t₀ row F F' T₀ d (col + n) := by
  induction n with
  | zero => exact h
  | succ n ih =>
    have passed := ih (by omega) fun i low => keeps i (by omega)
    exact passed.skip setting (by omega) (keeps n (Nat.lt_succ_self n))

def Near (row : Nat) (F : Nat → Cell) (d : Draw) (col : Nat) : Prop :=
  d.pen.row = row ∧ d.pen.col = (if (F col).width = 0 then col + 1 else col : Nat)

theorem near_next (setting : Setting w t₀.cols F F' (T₀ row)) (inside : col < t₀.cols) (visible : (F col).width ≠ 0)
    (pen : d.pen.row = row ∧ d.pen.col = (col + (F col).width : Nat)) : Near row F d (col + 1) := by
  refine ⟨pen.1, pen.2.trans ?_⟩
  rcases setting.span inside visible with one | two
  · have first : (F (col + 1)).width ≠ 0 := mt (setting.pairs col).mpr (by omega)
    rw [one, if_neg first]
  · rw [two, if_pos ((setting.pairs col).mp two)]

theorem RowPass.overwrite (setting : Setting w t₀.cols F F' (T₀ row)) (inRows : row < t₀.rows) (inside : col < t₀.cols)
    (h : RowPass w remains t₀ row F F' T₀ d col) :
    RowPass w remains t₀ row F F' T₀ ((d.moveTo row col).emitCell (F col)) (col + 1) ∧
      ((F col).width ≠ 0 → Near row F ((d.moveTo row col).emitCell (F col)) (col + 1)) := by
  have moved := h.move inRows inside
  have pen := moveTo_pen d row col
  by_cases second : (F col).width = 0
  · rw [emitCell_continuation second]
    exact ⟨moved.skip setting inside fun visible => absurd second visible, fun visible => absurd second visible⟩
  · obtain ⟨next, pen⟩ := moved.draw setting inside second (by rw [pen]) (by rw [pen])
    exact ⟨next, fun _ => near_next setting inside second pen⟩

variable {ps : List (Cell × Cell)} {p : Cell × Cell}

theorem fullCells_pass (setting : Setting w t₀.cols F F' (T₀ row)) (inRows : row < t₀.rows)
    (aligned : Aligned F S col ps) (fits : col + ps.length ≤ t₀.cols)
    (keeps : ∀ q < col + ps.length, cellIsBlank (F q) = true → (F q).width ≠ 0 → (F' q).width ≠ 0 ∧ Shows (T₀ row q) (F q))
    (h : RowPass w remains t₀ row F F' T₀ d col) :
    RowPass w remains t₀ row F F' T₀ (fullCells row col ps d).1 (col + ps.length) := by
  induction ps generalizing col d with
  | nil => exact h
  | cons p rest ih =>
    obtain ⟨rfl, aligned⟩ := aligned
    rw [length_cons] at fits keeps ⊢
    have length : col + 1 + rest.length = col + (rest.length + 1) := by omega
    have cast : (col : Int) + 1 = (col + 1 : Nat) := by omega
    have inside : col < t₀.cols := by omega
    have here := keeps col (by omega)
    rw [← length] at fits keeps ⊢
    rw [fullCells]
    split
    · rename_i blank
      rw [cast]
      exact ih aligned fits keeps (h.skip setting inside (here blank))
    · rw [cast]
      exact ih aligned fits keeps (h.overwrite setting inRows inside).1

def overdraws : List (Cell × Cell) → Bool
  | [] => false
  | p :: rest => unchanged p && (rest.dropWhile unchanged ≠ [] && 1 + (rest.takeWhile unchanged).length ≤ overdrawMax)

/-- Behind a gap is a changed cell, or nothing. -/
theorem overdraws_behind (ps : List (Cell × Cell)) : overdraws (ps.drop (ps.takeWhile unchanged).length) = false := by
  have whole : (ps.takeWhile unchanged ++ ps.dropWhile unchanged).drop (ps.takeWhile unchanged).length =
    ps.dropWhile unchanged := drop_left
  rw [takeWhile_append_dropWhile] at whole
  have first := head?_dropWhile_not unchanged ps
  rw [whole]
  cases shape : ps.dropWhile unchanged with
  | nil => rfl
  | cons p later =>
    rw [shape] at first
    simp [overdraws, show unchanged p = false from first]

def Tight : List (Cell × Cell) → Prop
  | [] => True
  | p :: rest => (p.1.width = 0 → unchanged p = false → overdraws rest = false) ∧ Tight rest

instance decidableTight : (ps : List (Cell × Cell)) → Decidable (Tight ps)
  | [] => isTrue trivial
  | p :: rest =>
    have := decidableTight rest
    inferInstanceAs (Decidable ((p.1.width = 0 → unchanged p = false → overdraws rest = false) ∧ Tight rest))

def touched : Nat → List (Cell × Cell) → List Bool
  | _, [] => []
  | skip + 1, _ :: rest => false :: touched skip rest
  | 0, p :: rest =>
    if unchanged p && !overdraws (p :: rest) then false :: touched (rest.takeWhile unchanged).length rest
    else true :: touched 0 rest

theorem unchanged_of_untouched {skip} (gap : ∀ p ∈ ps.take skip, unchanged p = true) {i} (here : ps[i]? = some p)
    (passed : (touched skip ps).getD i false = false) : unchanged p = true := by
  induction ps generalizing skip i with
  | nil => cases here
  | cons first rest ih =>
    cases skip with
    | succ skip =>
      cases i with
      | zero =>
        obtain rfl : first = p := Option.some.inj here
        exact gap _ (by simp)
      | succ i => exact ih (fun p member => gap p (by simp [member])) here passed
    | zero =>
      rw [touched] at passed
      split at passed
      · rename_i same
        cases i with
        | zero =>
          obtain rfl : first = p := Option.some.inj here
          exact (Bool.and_eq_true_iff.mp same).1
        | succ i =>
          refine ih ?_ here passed
          rw [take_takeWhile]
          exact fun p member => mem_takeWhile_imp member
      · cases i with
        | zero => cases passed
        | succ i => exact ih (by simp) here passed

/-- Written cells are the frame's, the others were shown already. -/
def Agrees (F F' line : Nat → Cell) (written : List Bool) (ps : List (Cell × Cell)) (col : Nat) : Prop :=
  ∀ i p, ps[i]? = some p → if written.getD i false then F (col + i) = p.1 else Keeps F F' line (col + i)

namespace Agrees

variable {line : Nat → Cell} {written : List Bool}

variable {ps : List (Cell × Cell)}

theorem head {b p} (agrees : Agrees F F' line (b :: written) (p :: ps) col) :
    if b then F col = p.1 else Keeps F F' line col := agrees 0 p rfl

theorem tail {b p} (agrees : Agrees F F' line (b :: written) (p :: ps) col) : Agrees F F' line written ps (col + 1) := by
  intro i q here
  have later := agrees (i + 1) q here
  rw [show col + (i + 1) = col + 1 + i by omega] at later
  exact later

section
variable {later : List Bool} {qs : List (Cell × Cell)} (agrees : Agrees F F' line (written ++ later) (ps ++ qs) col)
  (length : written.length = ps.length)
include agrees length

theorem left : Agrees F F' line written ps col := by
  intro i p here
  have low : i < ps.length := (List.getElem?_eq_some_iff.mp here).1
  have whole := agrees i p (by rw [getElem?_append_left low]; exact here)
  rwa [getD_append _ _ _ _ (by omega)] at whole

theorem right : Agrees F F' line later qs (col + ps.length) := by
  intro i p here
  have whole := agrees (ps.length + i) p (by
    rw [getElem?_append_right (by omega), Nat.add_sub_cancel_left]
    exact here)
  rwa [getD_append_right _ _ _ _ (by omega), length, Nat.add_sub_cancel_left, ← Nat.add_assoc] at whole

end

theorem keeps (agrees : Agrees F F' line (replicate ps.length false) ps col) :
    ∀ i < ps.length, Keeps F F' line (col + i) := by
  intro i low
  have here := agrees i _ (getElem?_eq_getElem low)
  rwa [getD_replicate _ low] at here

end Agrees

theorem diffCells_pass (setting : Setting w t₀.cols F F' (T₀ row)) (inRows : row < t₀.rows) {skip}
    (fits : col + ps.length ≤ t₀.cols) (agrees : Agrees F F' (T₀ row) (touched skip ps) ps col) (tight : Tight ps)
    (near : overdraws (ps.drop skip) = true → Near row F d (col + skip)) (h : RowPass w remains t₀ row F F' T₀ d col) :
    RowPass w remains t₀ row F F' T₀ (diffCells row skip col ps d).1 (col + ps.length) := by
  induction ps generalizing col skip d with
  | nil => cases skip <;> exact h
  | cons p rest ih =>
    rw [length_cons] at fits ⊢
    have length : col + 1 + rest.length = col + (rest.length + 1) := by omega
    have cast : (col : Int) + 1 = (col + 1 : Nat) := by omega
    have inside : col < t₀.cols := by omega
    rw [← length] at fits ⊢
    cases skip with
    | succ skip =>
      rw [diffCells, cast]
      refine ih fits agrees.tail tight.2 ?_ (h.skip setting inside agrees.head)
      rw [show col + 1 + skip = col + (skip + 1) by omega]
      exact near
    | zero =>
      obtain ⟨c, s⟩ := p
      rw [touched] at agrees
      rw [diffCells]
      split
      · rename_i same
        replace same : unchanged (c, s) = true := same
        dsimp only
        split
        · rename_i over_
          have overdrawn : overdraws ((c, s) :: rest) = true := by
            simp only [overdraws, same, Bool.true_and, Bool.and_eq_true, decide_eq_true_eq]
            exact over_
          rw [if_neg (by rw [overdrawn]; simp)] at agrees
          obtain rfl : F col = c := agrees.head
          rw [cast]
          obtain ⟨atRow, atCol⟩ : Near row F d col := near overdrawn
          by_cases second : (F col).width = 0
          · rw [emitCell_continuation second]
            refine ih fits agrees.tail tight.2 (fun _ => ?_) (h.skip setting inside fun visible => absurd second visible)
            rw [if_pos second] at atCol
            have first : (F (col + 1)).width ≠ 0 := mt (setting.pairs col).mpr (by omega)
            exact ⟨atRow, by rw [Nat.add_zero, if_neg first, atCol]⟩
          · rw [if_neg second] at atCol
            obtain ⟨next, pen⟩ := h.draw setting inside second atRow atCol
            exact ih fits agrees.tail tight.2 (fun _ => near_next setting inside second pen) next
        · rename_i passes
          have passed : overdraws ((c, s) :: rest) = false := by
            simp only [overdraws, same, Bool.true_and]
            simpa using passes
          rw [if_pos (by rw [same, passed]; rfl)] at agrees
          rw [Nat.add_sub_cancel_left, cast]
          refine ih fits agrees.tail tight.2 (fun more => ?_) (h.skip setting inside agrees.head)
          rw [overdraws_behind] at more
          cases more
      · rename_i differs
        have changed : unchanged (c, s) = false := by simpa [unchanged] using differs
        rw [if_neg (by rw [changed]; simp)] at agrees
        obtain rfl : F col = c := agrees.head
        rw [cast]
        obtain ⟨next, near⟩ := h.overwrite setting inRows inside
        refine ih fits agrees.tail tight.2 (fun more => near fun second => ?_) next
        rw [drop_zero, tight.1 second changed] at more
        cases more

def changedRange (ps : List (Cell × Cell)) : List (Cell × Cell) := (ps.dropWhile unchanged).rdropWhile unchanged

theorem changedRange_head {rest} (shape : changedRange ps = p :: rest) : unchanged p = false := by
  have whole := rdropWhile_append_rtakeWhile (p := unchanged) (l := ps.dropWhile unchanged)
  rw [changedRange] at shape
  rw [shape, cons_append] at whole
  have first := head?_dropWhile_not unchanged ps
  rwa [← whole, head?_cons] at first

theorem overdraws_changedRange (ps : List (Cell × Cell)) : overdraws (changedRange ps) = false := by
  cases shape : changedRange ps with
  | nil => rfl
  | cons p rest => simp [overdraws, changedRange_head shape]

def writes (ps : List (Cell × Cell)) : List Bool :=
  let before := ps.takeWhile unchanged
  let after := (ps.dropWhile unchanged).rtakeWhile unchanged
  replicate before.length false ++ (touched 0 (changedRange ps) ++ replicate after.length false)

theorem length_touched (skip : Nat) (ps : List (Cell × Cell)) : (touched skip ps).length = ps.length := by
  induction ps generalizing skip with
  | nil => cases skip <;> rfl
  | cons p rest ih =>
    cases skip with
    | succ skip => rw [touched, length_cons, ih, length_cons]
    | zero =>
      rw [touched]
      split <;> rw [length_cons, ih, length_cons]

theorem scan_parts (ps : List (Cell × Cell)) :
    ps = ps.takeWhile unchanged ++ (changedRange ps ++ (ps.dropWhile unchanged).rtakeWhile unchanged) := by
  rw [changedRange, rdropWhile_append_rtakeWhile, takeWhile_append_dropWhile]

theorem length_writes (ps : List (Cell × Cell)) : (writes ps).length = ps.length := by
  have whole := congrArg List.length (scan_parts ps)
  rw [length_append, length_append] at whole
  simp only [writes, length_append, length_replicate, length_touched]
  exact whole.symm

theorem unchanged_of_unwritten {i} (here : ps[i]? = some p) (passed : (writes ps).getD i false = false) :
    unchanged p = true := by
  have front : ∀ p ∈ ps.takeWhile unchanged, unchanged p = true := fun p member => mem_takeWhile_imp member
  have back : ∀ p ∈ (ps.dropWhile unchanged).rtakeWhile unchanged, unchanged p = true :=
    fun p member => mem_rtakeWhile_imp member
  rw [scan_parts ps] at here
  unfold writes at passed
  dsimp only at passed
  by_cases low : i < (ps.takeWhile unchanged).length
  · rw [getElem?_append_left low] at here
    exact front p (mem_of_getElem? here)
  · rw [getElem?_append_right (by omega)] at here
    rw [getD_append_right _ _ _ _ (by rw [length_replicate]; omega), length_replicate] at passed
    by_cases mid : i - (ps.takeWhile unchanged).length < (changedRange ps).length
    · rw [getElem?_append_left mid] at here
      rw [getD_append _ _ _ _ (by rw [length_touched]; exact mid)] at passed
      exact unchanged_of_untouched (by simp) here passed
    · rw [getElem?_append_right (by omega)] at here
      exact back p (mem_of_getElem? here)

theorem diffScan_pass (setting : Setting w t₀.cols F F' (T₀ row)) (inRows : row < t₀.rows)
    (fits : ps.length ≤ t₀.cols) (agrees : Agrees F F' (T₀ row) (writes ps) ps 0) (tight : Tight (changedRange ps))
    (h : RowPass w remains t₀ row F F' T₀ d 0) : RowPass w remains t₀ row F F' T₀ (diffScan row ps d).1 ps.length := by
  have whole := scan_parts ps
  have first := overdraws_changedRange ps
  unfold diffScan
  unfold writes at agrees
  dsimp only at agrees ⊢
  rw [show (ps.dropWhile unchanged).rdropWhile unchanged = changedRange ps from rfl]
  generalize ps.takeWhile unchanged = before at whole agrees ⊢
  generalize changedRange ps = range at whole agrees tight first ⊢
  generalize (ps.dropWhile unchanged).rtakeWhile unchanged = after at whole agrees
  subst whole
  have front := agrees.left length_replicate
  have rest := agrees.right length_replicate
  have middle := rest.left (length_touched 0 range)
  have back := rest.right (length_touched 0 range)
  rw [length_append, length_append] at fits ⊢
  rw [Nat.zero_add] at middle back
  have passed := h.skips setting (by omega) front.keeps
  rw [Nat.zero_add] at passed
  rw [← Nat.add_assoc]
  split
  · rename_i none
    subst none
    rw [length_nil, Nat.add_zero] at back ⊢
    exact passed.skips setting (by simpa using fits) back.keeps
  · rename_i some
    have positive : 0 < range.length := length_pos_iff.mpr some
    refine RowPass.skips setting (by omega) back.keeps ?_
    refine diffCells_pass setting inRows (by omega) middle tight ?_ (passed.move inRows (by omega))
    rw [drop_zero, first]
    exact fun none => Bool.noConfusion none

end Lumimux.Librender
