import Lumimux.Lib.Paired
import Lumimux.Lib.Run
import Lumimux.Utf8.Codec
import Lumimux.Utf8.RuneWidth
import Lumimux.Vt.Cell

/-!
# The drawing surface (`libdraw/draw.c`)

Cells are drawn at any position, also outside. What is drawn over one half of a wide character clears the other, and
rows that are drawn on are marked until the next `draw_present`.
-/

namespace Lumimux.Libdraw
open Lib Utf8 Vt List Function

def drawCellCont : Nat := 0xFFFE

structure Draw where
  rows : Int
  cols : Int
  cells : Int → Int → Cell
  rowDirty : Int → Bool

def allocGrid (rows cols : Int) : Draw := ⟨rows, cols, fun _ _ => .clear, fun _ => true⟩

def drawNew (size : Option (Int × Int)) : Draw :=
  match size with
  | some (rows, cols) => if rows ≤ 0 ∨ cols ≤ 0 then allocGrid 24 80 else allocGrid rows cols
  | none => allocGrid 24 80

def freeGrid : Draw := ⟨0, 0, fun _ _ => .clear, fun _ => false⟩

def Draw.drawResize (d : Draw) (rows cols : Int) (fits : Bool) : Draw :=
  if rows ≤ 0 ∨ cols ≤ 0 then d
  else if rows = d.rows ∧ cols = d.cols then d
  else if fits then allocGrid rows cols
  else freeGrid

def Draw.drawClear (d : Draw) : Draw := allocGrid d.rows d.cols

def splitGuard (cols : Int) (row : Int → Cell) (c : Int) : Int → Cell :=
  let next := if (row c).width = 2 ∧ c + 1 < cols then Function.update row (c + 1) .clear else row
  if (row c).width = 0 ∧ 0 < c ∧ (next (c - 1)).width = 2 then Function.update next (c - 1) .clear else next

def putRow (cols : Int) (row : Int → Cell) (c : Int) (cp : Nat) (style : Style) (w : Nat) : Int → Cell :=
  let row := Function.update (splitGuard cols row c) c ⟨cp, style, w⟩
  if w = 2 then Function.update (splitGuard cols row (c + 1)) (c + 1) ⟨drawCellCont, style, 0⟩ else row

def Draw.putGlyph (d : Draw) (r c : Int) (cp : Nat) (style : Style) (w : Nat) : Draw :=
  if r < 0 ∨ r ≥ d.rows ∨ c < 0 ∨ c ≥ d.cols then d
  else
    -- A wide glyph over the right edge is a blank.
    let (cp, w) := if w = 2 ∧ c + 1 ≥ d.cols then (space, 1) else (cp, w)
    { d with
      cells := Function.update d.cells r (putRow d.cols (d.cells r) c cp style w)
      rowDirty := Function.update d.rowDirty r true }

def Draw.drawCell (t : WidthTable) (d : Draw) (r c : Int) (cp : Nat) (style : Style) : Draw :=
  d.putGlyph r c cp style (if runeWidth t cp = 2 then 2 else 1)

def Draw.textLoop (t : WidthTable) (r : Int) (style : Style) : (skip : Nat) → Bytes → Int → Draw → Draw
  | _, [], _, d => d
  | skip + 1, _ :: p, col, d => textLoop t r style skip p col d
  | 0, b :: p, col, d =>
    if col < d.cols then
      let (rune, n) := utf8Decode (b :: p)
      if rune < 0x20 ∨ rune = 0x7F then textLoop t r style (n - 1) p (col + 1) (d.putGlyph r col space style 1)
      else if runeWidth t rune = 0 then textLoop t r style (n - 1) p col d
      else
        let w := if runeWidth t rune < 0 then 1 else runeWidth t rune
        if col + w > d.cols then d
        else textLoop t r style (n - 1) p (col + w) (d.putGlyph r col rune style w.toNat)
    else d

def Draw.drawText (t : WidthTable) (d : Draw) (r c : Int) (utf8 : Bytes) (style : Style) : Draw :=
  if r < 0 ∨ r ≥ d.rows then d else d.textLoop t r style 0 (utf8.takeWhile (· ≠ 0)) c

def Draw.fillLoop (r : Int) (cp : Nat) (style : Style) : (n : Nat) → (col : Int) → Draw → Draw
  | 0, _, d => d
  | n + 1, col, d =>
    if col < 0 then fillLoop r cp style n (col + 1) d
    else if col ≥ d.cols then d
    else fillLoop r cp style n (col + 1) (d.putGlyph r col cp style 1)

def Draw.drawFill (d : Draw) (r c n : Int) (cp : Nat) (style : Style) : Draw :=
  if r < 0 ∨ r ≥ d.rows then d else d.fillLoop r cp style n.toNat c

def Draw.drawPresent (d : Draw) : Draw := { d with rowDirty := fun _ => false }

inductive Call
  | cell (r c : Int) (cp : Nat) (style : Style)
  | text (r c : Int) (utf8 : Bytes) (style : Style)
  | fill (r c n : Int) (cp : Nat) (style : Style)
  | clear
  | resize (rows cols : Int) (fits : Bool)
  | present

def step (t : WidthTable) (d : Draw) : Call → Draw
  | .cell r c cp style => d.drawCell t r c cp style
  | .text r c utf8 style => d.drawText t r c utf8 style
  | .fill r c n cp style => d.drawFill r c n cp style
  | .clear => d.drawClear
  | .resize rows cols fits => d.drawResize rows cols fits
  | .present => d.drawPresent

def WholeRow (cols : Int) (row : Int → Cell) : Prop :=
  Paired (·.width = 2) (·.width = 0) row ∧ ∀ c, ¬ (0 ≤ c ∧ c < cols) → row c = .clear

variable {cols c : Int} {row : Int → Cell}

theorem splitGuard_eq (next : (row c).width = 2 → c + 1 < cols)
    (lead : (row c).width = 0 → 0 < c ∧ (row (c - 1)).width = 2) (k : Int) : splitGuard cols row c k =
      if (row c).width = 2 ∧ k = c + 1 ∨ (row c).width = 0 ∧ k = c - 1 then .clear else row k := by
  by_cases wide : (row c).width = 2
  · simp [splitGuard, wide, next wide, update_apply]
  by_cases cont : (row c).width = 0
  · simp [splitGuard, cont, lead cont, update_apply]
  · simp [splitGuard, wide, cont]

section
variable (whole : WholeRow cols row)
include whole

theorem WholeRow.link {j k} (next : j = k - 1) : (row j).width = 2 ↔ (row k).width = 0 := next ▸ whole.1 k

theorem WholeRow.inside (other : (row c).width ≠ 1) : 0 ≤ c ∧ c < cols := by
  by_contra out
  rw [whole.2 c out] at other
  exact other rfl

theorem WholeRow.putRow_eq (cp : Nat) (style : Style) {w} (glyph : w = 1 ∨ w = 2) (k : Int) :
    putRow cols row c cp style w k =
      if k = c then ⟨cp, style, w⟩
      else if w = 2 ∧ k = c + 1 then ⟨drawCellCont, style, 0⟩
      else if (row c).width = 2 ∧ k = c + 1 ∨ (row c).width = 0 ∧ k = c - 1 ∨ w = 2 ∧ (row (c + 1)).width = 2 ∧ k = c + 2
        then .clear
      else row k := by
  have into := @link cols row whole (c - 1) c rfl
  have behind := @link cols row whole c (c + 1) (by omega)
  have last := @link cols row whole (c + 1) (c + 1 + 1) (by omega)
  have guarded := @splitGuard_eq cols c row
    (fun wide => (@inside cols (c + 1) row whole (by omega)).2)
    (fun cont => ⟨by have := @inside cols (c - 1) row whole (by omega); omega, into.mpr cont⟩)
  unfold putRow
  rcases glyph with rfl | rfl
  · rw [if_neg (by decide), update_apply, guarded]
    simp
  · have second : Function.update (splitGuard cols row c) c ⟨cp, style, 2⟩ (c + 1) =
        if (row c).width = 2 then .clear else row (c + 1) := by
      rw [update_of_ne (by omega), guarded]
      grind
    have width : (if (row c).width = 2 then Cell.clear else row (c + 1)).width ≠ 0 ∧
        ((if (row c).width = 2 then Cell.clear else row (c + 1)).width = 2 ↔ (row (c + 1)).width = 2) := by
      grind [Cell.clear_width]
    rw [if_pos rfl, update_apply, splitGuard_eq, second, update_apply, guarded]
    · split_ifs <;> grind
    · rw [second]
      intro wide
      exact (@inside cols (c + 1 + 1) row whole (by omega)).2
    · rw [second]
      intro cont
      exact absurd cont width.1

theorem WholeRow.put (inside : 0 ≤ c ∧ c < cols) (cp : Nat) (style : Style) {w}
    (glyph : w = 1 ∨ w = 2 ∧ c + 1 < cols) : WholeRow cols (putRow cols row c cp style w) := by
  have cells := @putRow_eq cols c row whole cp style w (by tauto)
  have into := @link cols row whole (c - 1) c rfl
  have behind := @link cols row whole c (c + 1) (by omega)
  have last := @link cols row whole (c + 1) (c + 2) (by omega)
  refine ⟨?_, ?_⟩
  · intro k
    have here := @link cols row whole (k - 1) k rfl
    dsimp only
    rw [cells, cells]
    split_ifs <;> grind [Cell.clear_width]
  · intro k out
    rw [cells, whole.2 k out]
    have edge := @WholeRow.inside cols (c + 2) row whole
    split_ifs <;> first | rfl | omega

end

theorem step_rule {R : Draw → Draw → Prop} (refl : ∀ d, R d d) (trans : ∀ {d d' d''}, R d d' → R d' d'' → R d d'')
    (put : ∀ d r c cp style w, w = 1 ∨ w = 2 → R d (d.putGlyph r c cp style w))
    (new : ∀ d rows cols, R d (allocGrid rows cols)) (none : ∀ d, R d freeGrid) (t : WidthTable) (d : Draw) {call}
    (draws : call ≠ .present) : R d (step t d call) := by
  have text : ∀ r style skip p col d, R d (d.textLoop t r style skip p col) := by
    intro r style skip p
    induction p generalizing skip with
    | nil => exact fun _ d => refl d
    | cons b p ih =>
      intro col d
      cases skip with
      | succ skip => exact ih skip col d
      | zero =>
        rw [Draw.textLoop]
        have most := runeWidth_le_two t (utf8Decode (b :: p)).1
        dsimp only
        split_ifs
        · exact trans (put _ _ _ _ _ _ (.inl rfl)) (ih _ _ _)
        · exact ih _ _ _
        · exact refl d
        · exact trans (put _ _ _ _ _ _ (.inl rfl)) (ih _ _ _)
        · exact refl d
        · exact trans (put _ _ _ _ _ _ (by omega)) (ih _ _ _)
        · exact refl d
  have fill : ∀ r cp style n col d, R d (Draw.fillLoop r cp style n col d) := by
    intro r cp style n
    induction n with
    | zero => exact fun _ d => refl d
    | succ n ih =>
      intro col d
      rw [Draw.fillLoop]
      split_ifs
      · exact ih _ _
      · exact refl d
      · exact trans (put _ _ _ _ _ _ (.inl rfl)) (ih _ _)
  cases call with
  | cell r c cp style => exact put _ _ _ _ _ _ (by split <;> simp)
  | text r c utf8 style =>
    rw [step, Draw.drawText]
    split
    · exact refl d
    · exact text ..
  | fill r c n cp style =>
    rw [step, Draw.drawFill]
    split
    · exact refl d
    · exact fill ..
  | clear => exact new ..
  | resize rows cols fits =>
    rw [step, Draw.drawResize]
    split_ifs
    · exact refl d
    · exact refl d
    · exact new ..
    · exact none d
  | present => exact absurd rfl draws

def Whole (d : Draw) : Prop := ∀ r, WholeRow d.cols (d.cells r)

theorem whole_allocGrid (rows cols : Int) : Whole (allocGrid rows cols) :=
  fun _ => ⟨fun _ => by simp [allocGrid], fun _ _ => rfl⟩

theorem Whole.putGlyph {d} (whole : Whole d) (r c : Int) (cp : Nat) (style : Style) {w} (glyph : w = 1 ∨ w = 2) :
    Whole (d.putGlyph r c cp style w) := by
  unfold Draw.putGlyph
  split
  · exact whole
  · intro r'
    dsimp only
    by_cases other : r' = r
    · rw [other, update_self]
      refine (whole r).put (by omega) _ _ ?_
      split
      · exact .inl rfl
      · dsimp only
        omega
    · rw [update_of_ne other]
      exact whole r'

theorem whole_step (t : WidthTable) {d} (whole : Whole d) (call : Call) : Whole (step t d call) := by
  by_cases present : call = .present
  · rw [present]
    exact whole
  · exact @step_rule (fun d d' => Whole d → Whole d') (fun _ => id) (fun first second => second ∘ first)
      (fun _ _ _ _ _ _ glyph whole => whole.putGlyph _ _ _ _ glyph) (fun _ rows cols _ => whole_allocGrid rows cols)
      (fun _ _ => whole_allocGrid 0 0) t d call present whole

def Marked (d : Draw) (r : Int) : Prop := 0 ≤ r → r < d.rows → d.rowDirty r

theorem marked_step (t : WidthTable) (d : Draw) {call} (draws : call ≠ .present) (r : Int) :
    (Marked d r → Marked (step t d call) r) ∧ ((step t d call).cells r ≠ d.cells r → Marked (step t d call) r) := by
  refine @step_rule (fun d d' => (Marked d r → Marked d' r) ∧ (d'.cells r ≠ d.cells r → Marked d' r))
    (fun _ => ⟨id, fun other => absurd rfl other⟩) ?_ ?_ ?_ ?_ t d call draws
  · rintro d d' d'' ⟨keeps, marks⟩ ⟨keeps', marks'⟩
    refine ⟨keeps' ∘ keeps, fun other => ?_⟩
    by_cases same : d''.cells r = d'.cells r
    · exact keeps' (marks (same ▸ other))
    · exact marks' same
  · intro d r' c cp style w _
    unfold Draw.putGlyph
    split
    · exact ⟨id, fun other => absurd rfl other⟩
    · by_cases here : r = r'
      · subst here
        exact ⟨fun _ _ _ => update_self .., fun _ _ _ => update_self ..⟩
      · refine ⟨fun marked low high => ?_, fun other => absurd (update_of_ne here ..) other⟩
        exact (update_of_ne here ..).trans (marked low high)
  · exact fun _ _ _ => ⟨fun _ _ _ => rfl, fun _ _ _ => rfl⟩
  · exact fun _ => ⟨fun _ low high => absurd high (Int.not_lt.mpr low), fun _ low high => absurd high (Int.not_lt.mpr low)⟩

/-- Every wide character on the surface has both its cells. -/
def PairsWhole (d : Draw) : Prop :=
  ∀ r c, 0 ≤ c → c < d.cols →
    ((d.cells r c).width = 2 → c + 1 < d.cols ∧ (d.cells r (c + 1)).width = 0) ∧
    ((d.cells r c).width = 0 → 0 < c ∧ (d.cells r (c - 1)).width = 2)

theorem Whole.pairs {d} (whole : Whole d) : PairsWhole d := by
  intro r c low high
  refine ⟨fun wide => ?_, fun cont => ?_⟩
  · have next := ((whole r).link (by omega : c = c + 1 - 1)).mp wide
    exact ⟨((whole r).inside (next ▸ Nat.zero_ne_one)).2, next⟩
  · have lead := ((whole r).link rfl).mpr cont
    have := (whole r).inside (lead ▸ (by decide : (2 : Nat) ≠ 1))
    exact ⟨by omega, lead⟩

/-- A row that a call changed is marked until the next `draw_present`. -/
def ChangesMarked (t : WidthTable) (start : Draw) (calls : List Call) : Prop :=
  ∀ earlier call later, calls = earlier ++ call :: later → (∀ other ∈ call :: later, other ≠ .present) →
    ∀ r, (step t (earlier.foldl (step t) start) call).cells r ≠ (earlier.foldl (step t) start).cells r →
      Marked (calls.foldl (step t) start) r

/-- **The surface keeps wide characters whole and knows what it changed.** -/
theorem surface_sound (t : WidthTable) (size : Option (Int × Int)) (calls : List Call) :
    PairsWhole (calls.foldl (step t) (drawNew size)) ∧ ChangesMarked t (drawNew size) calls := by
  refine ⟨?_, ?_⟩
  · have new : Whole (drawNew size) := by
      unfold drawNew
      split
      · split <;> exact whole_allocGrid _ _
      · exact whole_allocGrid 24 80
    exact Whole.pairs (foldlRecOn (motive := Whole) calls (step t) new fun _ whole call _ => whole_step t whole call)
  · rintro earlier call later rfl draws r changed
    rw [foldl_append, foldl_cons]
    have marked := (marked_step t _ (draws call mem_cons_self) r).2 changed
    have rest : ∀ other ∈ later, other ≠ .present := fun other member => draws other (mem_cons_of_mem call member)
    exact (along_of_forall rest).invariant (fun d _ marked draws => (marked_step t d draws r).1 marked) marked

end Lumimux.Libdraw
