import Lumimux.Render.Faithful

/-!
# Row flags

The renderer passes over rows that are not flagged. A terminal drawn under the flags and one drawn without them look
alike (`run_alike`).
-/

namespace Lumimux.Librender
open Lib Utf8 Vt List

structure Alike (a b : Cell) : Prop where
  codepoint : a.codepoint = b.codepoint
  width : a.width = b.width
  attrs : a.style.attrs = b.style.attrs
  bg : a.style.bg = b.style.bg
  fg : a.style.fg = b.style.fg ∨ (a.codepoint = space ∧ a.style.attrs = {})

/-- Two terminals with cells that look alike and the same cursor. -/
structure SameScreen (a b : Term) : Prop where
  cells : ∀ row < a.rows, ∀ col < a.cols, Alike (a.screen row col) (b.screen row col)
  cursor : a.row = b.row ∧ a.col = b.col

theorem alike_of_shows {a b c} (first : Shows a c) (second : Shows b c) : Alike a b := by
  refine ⟨first.codepoint.trans second.codepoint.symm, first.width.trans second.width.symm, first.attrs.trans second.attrs.symm,
    first.bg.trans second.bg.symm, ?_⟩
  rcases first.fg with same | ⟨blank, none⟩
  · rcases second.fg with same' | ⟨blank, none⟩
    · exact .inl (same.trans same'.symm)
    · refine .inr ⟨first.codepoint.trans blank, first.attrs.trans ?_⟩
      rw [drawStyle, none]
      rfl
  · refine .inr ⟨first.codepoint.trans blank, first.attrs.trans ?_⟩
    rw [drawStyle, none]
    rfl

theorem alike_of_shown {S T F : Nat → Cell} (whole : display.Whole F) {n q} (inside : q < n)
    (first : ∀ q < n, display.Shown S F q) (second : ∀ q < n, display.Shown T F q) : Alike (S q) (T q) := by
  by_cases half : (F q).width = 0
  · obtain ⟨p, rfl, -, halfS⟩ := (Display.shown_second half).mp (first q inside)
    obtain ⟨p', same, -, halfT⟩ := (Display.shown_second half).mp (second _ inside)
    obtain rfl : p = p' := by omega
    have wide : (F p).width = 2 := (whole.pairs p).mpr half
    have visible : (F p).width ≠ 0 := by omega
    have alike := alike_of_shows ((Display.shown_first visible).mp (first p (by omega)))
      ((Display.shown_first visible).mp (second p (by omega)))
    rw [halfS, halfT]
    exact ⟨alike.codepoint, rfl, alike.attrs, alike.bg, alike.fg⟩
  · exact alike_of_shows ((Display.shown_first half).mp (first q inside)) ((Display.shown_first half).mp (second q inside))

namespace Console

variable {w : WidthTable} {c e : Console}

theorem Faithful.sameScreen (first : c.Faithful) (second : e.Faithful) (frame : c.frame = e.frame)
    (wellFormed : c.frame.WellFormed w c.term.rows c.term.cols) (rows : c.term.rows = e.term.rows)
    (cols : c.term.cols = e.term.cols) : SameScreen c.term e.term := by
  refine ⟨fun row inRows col inCols => ?_, ?_⟩
  · refine alike_of_shown (wellFormed.row row inRows).whole inCols (first.cells row inRows) ?_
    have shown := second.cells row (rows ▸ inRows)
    rw [← frame, ← cols] at shown
    exact shown
  · rw [first.cursor.1, first.cursor.2, second.cursor.1, second.cursor.2, frame]
    exact ⟨rfl, rfl⟩

end Console

structure Manager where
  rows : Nat
  cols : Nat
  screen : List Cell
  prevScreen : List Cell
  rowDirty : List Bool

def exactEq (a b : Cell) : Bool :=
  a.codepoint = b.codepoint ∧ a.style.attrs = b.style.attrs ∧ a.width = b.width ∧ a.style.fg = b.style.fg ∧ a.style.bg = b.style.bg

def rowChanged (a b : List Cell) : Bool := (a.zip b).any fun p => !exactEq p.1 p.2

def Manager.updateDirty (changed : List Cell → List Cell → Bool) (m : Manager) : Manager :=
  { m with
    prevScreen := m.screen
    rowDirty := (range m.rows).map fun r =>
      m.rowDirty.getD r false || changed (flatRow m.screen m.cols r) (flatRow m.prevScreen m.cols r) }

def Manager.wmUpdateDirty (m : Manager) : Manager := m.updateDirty rowChanged

def Manager.tileUpdateDirty (m : Manager) : Manager := m.updateDirty fun a b => a ≠ b

inductive Kind
  | wm
  | tile
  deriving DecidableEq, Repr

def Manager.update (m : Manager) : Kind → Manager
  | .wm => m.wmUpdateDirty
  | .tile => m.tileUpdateDirty

theorem eq_of_not_rowChanged {a b} (length : a.length = b.length) (same : rowChanged a b = false) : a = b := by
  induction a generalizing b with
  | nil => exact (eq_nil_of_length_eq_zero length.symm).symm
  | cons x a ih =>
    cases b with
    | nil => cases length
    | cons y b =>
      simp only [rowChanged, zip_cons_cons, any_cons, Bool.or_eq_false_iff, Bool.not_eq_false'] at same
      obtain ⟨here, later⟩ := same
      simp only [exactEq, decide_eq_true_eq] at here
      obtain ⟨codepoint, attrs, width, fg, bg⟩ := here
      have equal : x = y := by
        obtain ⟨cp, ⟨attrs, fg, bg⟩, width⟩ := x
        obtain ⟨cp', ⟨attrs', fg', bg'⟩, width'⟩ := y
        simp_all
      rw [equal, ih (Nat.succ.inj length) later]

theorem unflagged_row (kind : Kind) {m : Manager} {r : Nat} (inside : r < m.rows)
    (length : (flatRow m.screen m.cols r).length = (flatRow m.prevScreen m.cols r).length)
    (passed : (m.update kind).rowDirty.getD r false = false) : flatRow m.screen m.cols r = flatRow m.prevScreen m.cols r := by
  have flag : ∀ changed : List Cell → List Cell → Bool, (m.updateDirty changed).rowDirty.getD r false = false →
      changed (flatRow m.screen m.cols r) (flatRow m.prevScreen m.cols r) = false := by
    intro changed clear
    rw [Manager.updateDirty, getD_eq_getElem _ _ (by rw [length_map, length_range]; exact inside),
      getElem_map, getElem_range, Bool.or_eq_false_iff] at clear
    exact clear.2
  cases kind with
  | wm => exact eq_of_not_rowChanged length (flag _ passed)
  | tile => simpa using flag _ passed

structure Shot where
  frame : Frame
  flags : List Bool := []

/-- A manager with a console that is drawn under its flags, and one that is drawn without them. -/
structure Twin where
  manager : Manager
  flagged : Console
  plain : Console

namespace Twin

def composed (kind : Kind) (m : Manager) (s : Shot) : Manager :=
  { m with screen := s.frame.cells, rowDirty := s.flags }.update kind

section
variable (w : WidthTable) (remains : Remains) (kind : Kind)

def first (m : Manager) (c : Console) (s : Shot) : Twin :=
  ⟨composed kind m s, c.full w remains s.frame, c.full w remains s.frame⟩

def next (t : Twin) (s : Shot) : Twin :=
  let m := composed kind t.manager s
  ⟨m, t.flagged.diffFlags w remains (some m.rowDirty) s.frame, t.plain.diff w remains s.frame⟩

end

/-- Both renderers draw the frame cleanly. -/
def Clean (t : Twin) (s : Shot) : Prop := t.flagged.DiffClean none s.frame ∧ t.plain.DiffClean none s.frame

structure Following (w : WidthTable) (rows cols : Nat) (t : Twin) : Prop where
  flagged : t.flagged.Following w rows cols
  plain : t.plain.Following w rows cols
  frame : t.flagged.frame = t.plain.frame
  prev : t.manager.prevScreen = t.flagged.frame.cells
  size : t.manager.rows = rows ∧ t.manager.cols = cols

theorem composed_prev (kind : Kind) (m : Manager) (s : Shot) : (composed kind m s).prevScreen = s.frame.cells := by
  cases kind <;> rfl

theorem composed_size (kind : Kind) (m : Manager) (s : Shot) :
    (composed kind m s).rows = m.rows ∧ (composed kind m s).cols = m.cols := by
  cases kind <;> exact ⟨rfl, rfl⟩

variable {w : WidthTable} {rows cols : Nat} {t : Twin} {s : Shot}

theorem flagged_clean (kind : Kind) (following : t.Following w rows cols) (wellFormed : s.frame.WellFormed w rows cols)
    (clean : t.flagged.DiffClean none s.frame) : t.flagged.DiffClean (some (composed kind t.manager s).rowDirty) s.frame := by
  have inStep := following.flagged.inStep
  have termRows : t.flagged.term.rows = rows := inStep.fits.rows.symm.trans following.flagged.rows
  have termCols : t.flagged.term.cols = cols := inStep.fits.cols.symm.trans following.flagged.cols
  intro i inside
  split
  · exact clean i inside
  · rename_i passed
    have new := (wellFormed.row i (termRows ▸ inside)).length
    have old := (inStep.wellFormed.row i inside).length
    rw [termCols] at old ⊢
    have same := @unflagged_row kind { t.manager with screen := s.frame.cells, rowDirty := s.flags } i
      (by rw [following.size.1, ← termRows]; exact inside)
      (by
        dsimp only
        rw [following.prev, following.size.2]
        exact new.trans old.symm)
      (Bool.not_eq_true _ ▸ passed)
    dsimp only at same
    rw [following.prev, following.size.2] at same
    exact same

theorem Following.next {remains kind} (following : t.Following w rows cols) (wellFormed : s.frame.WellFormed w rows cols)
    (clean : t.Clean s) : (t.next w remains kind s).Following w rows cols := by
  have size := composed_size kind t.manager s
  exact ⟨following.flagged.diffFlags remains wellFormed (flagged_clean kind following wellFormed clean.1),
    following.plain.diffFlags remains wellFormed clean.2, rfl, composed_prev kind t.manager s,
    size.1.trans following.size.1, size.2.trans following.size.2⟩

theorem Following.sameScreen (following : t.Following w rows cols) : SameScreen t.flagged.term t.plain.term := by
  have flagged := following.flagged
  have plain := following.plain
  refine flagged.inStep.faithful.sameScreen plain.inStep.faithful following.frame flagged.inStep.wellFormed ?_ ?_
  · rw [← flagged.inStep.fits.rows, ← plain.inStep.fits.rows, flagged.rows, plain.rows]
  · rw [← flagged.inStep.fits.cols, ← plain.inStep.fits.cols, flagged.cols, plain.cols]

/-- **Row flags are sound** as long as the frames are drawn cleanly: the terminal looks as it does without the
flags. -/
theorem run_alike {w : WidthTable} {remains : Remains} {kind : Kind} {m : Manager} {c : Console} {s₀ : Shot} {later : List Shot}
    (fits : c.Fits) (size : m.rows = c.term.rows ∧ m.cols = c.term.cols)
    (wellFormed : ∀ s ∈ s₀ :: later, s.frame.WellFormed w c.term.rows c.term.cols) (opens : c.FullClean s₀.frame)
    (clean : Along (next w remains kind) Clean (first w remains kind m c s₀) later) (n : Nat) :
    SameScreen ((later.take n).foldl (next w remains kind) (first w remains kind m c s₀)).flagged.term
      ((later.take n).foldl (next w remains kind) (first w remains kind m c s₀)).plain.term := by
  have full : (c.full w remains s₀.frame).Following w c.term.rows c.term.cols :=
    ⟨Console.full_inStep fits (wellFormed s₀ mem_cons_self) opens, fits.rows, fits.cols⟩
  have start : (first w remains kind m c s₀).Following w c.term.rows c.term.cols :=
    have managerSize := composed_size kind m s₀
    ⟨full, full, rfl, composed_prev kind m s₀, managerSize.1.trans size.1, managerSize.2.trans size.2⟩
  rw [← take_append_drop n later] at clean
  have each : Along (next w remains kind) (fun _ s => s.frame.WellFormed w c.term.rows c.term.cols) (first w remains kind m c s₀)
      (later.take n) :=
    along_of_forall fun s member => wellFormed s (mem_cons_of_mem _ (mem_of_mem_take member))
  refine (Along.invariant (fun twin s following step => ?_) start (clean.of_append.and each)).sameScreen
  exact following.next step.2 step.1

end Twin

instance decidableSameMarks (hasBce : Bool) (cs ss : List Cell) : Decidable (SameMarks hasBce cs ss) := by
  unfold SameMarks
  infer_instance

instance decidableDiffClean (c : Console) (rowDirty : Option (List Bool)) (f : Frame) : Decidable (c.DiffClean rowDirty f) := by
  unfold Console.DiffClean
  infer_instance

instance decidableTwinClean (t : Twin) (s : Shot) : Decidable (t.Clean s) := by
  unfold Twin.Clean
  infer_instance

def lineManager (cols : Nat) : Manager := ⟨1, cols, [], [], []⟩

def letterShots : List Shot := [⟨lineFrame ([narrow 0x61, narrow 0x63] ++ wide 0x6F22), []⟩]

def letterTwin : Twin :=
  Twin.first latestTable .keep .wm (lineManager 4) (lineConsole 4) ⟨lineFrame ([narrow 0x61, narrow 0x62] ++ wide 0x6F22), []⟩

theorem letter_alike : SameScreen ((letterShots.take 1).foldl (Twin.next latestTable .keep .wm) letterTwin).flagged.term
      ((letterShots.take 1).foldl (Twin.next latestTable .keep .wm) letterTwin).plain.term :=
  Twin.run_alike ⟨rfl, rfl, rfl⟩ ⟨rfl, rfl⟩ (by decide +kernel) (by decide +kernel) (by decide +kernel) 1

def repeatedTwin (kind : Kind) : Twin :=
  (Twin.first latestTable .keep kind (lineManager 5) (lineConsole 5) ⟨wideGlyphsFrame, []⟩).next latestTable .keep kind
    ⟨wideGlyphsFrame, []⟩

theorem repeated_differs : wideGlyphsFrame.WellFormed latestTable 1 5 ∧
      ¬ SameScreen (repeatedTwin .wm).flagged.term (repeatedTwin .wm).plain.term ∧
      ¬ SameScreen (repeatedTwin .tile).flagged.term (repeatedTwin .tile).plain.term := by
  refine ⟨by decide +kernel, fun same => ?_, fun same => ?_⟩
  · exact absurd (same.cells 0 (by decide +kernel) 1 (by decide +kernel)).codepoint (by decide +kernel)
  · exact absurd (same.cells 0 (by decide +kernel) 1 (by decide +kernel)).codepoint (by decide +kernel)

end Lumimux.Librender
