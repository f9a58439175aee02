import Lumimux.Vt.Buf

/-!
# Overlay pads (`libtui/tui_pad.c`)

`resolve_cell` searches a stack of pads from the top for an opaque cell and keeps the lowest overlay on the way, which
it applies only over the base.
-/

namespace Lumimux.Libtui
open Vt List

inductive TuiBlend
  | tuiTransparent
  | tuiOpaque
  | tuiColorBg
  | tuiColorFgBg
  deriving DecidableEq, Repr

@[ext]
structure Shown where
  codepoint : Nat
  style : Style
  deriving DecidableEq, Repr

structure TuiCell extends Shown where
  blend : TuiBlend

structure TuiPad where
  cells : Nat → Nat → TuiCell
  w : Int
  h : Int
  screenRow : Int
  screenCol : Int

def TuiPad.cellAt (sr sc : Int) (p : TuiPad) : TuiCell :=
  let lr := sr - p.screenRow
  let lc := sc - p.screenCol
  if lr < 0 ∨ lr ≥ p.h ∨ lc < 0 ∨ lc ≥ p.w then ⟨⟨0, {}⟩, .tuiTransparent⟩ else p.cells lr.toNat lc.toNat

def baseCell (base : VtBuf) (sr sc : Int) : Shown :=
  match if sc < 0 ∨ base.cols ≤ sc then none else (base.row? sr).bind (·.cells[sc.toNat]?) with
  | some vc => ⟨vc.codepoint, vc.style⟩
  | none => ⟨space, {}⟩

def TuiCell.paint (c : TuiCell) (below : Shown) : Shown :=
  match c.blend with
  | .tuiTransparent => below
  | .tuiOpaque => c.toShown
  | .tuiColorBg => { below with style.bg := c.style.bg }
  | .tuiColorFgBg => { below with style.fg := c.style.fg, style.bg := c.style.bg }

def resolveLoop (base : Shown) : List TuiCell → Option TuiCell → Shown
  | [], colorCell => colorCell.elim base (·.paint base)
  | c :: rest, colorCell =>
    match c.blend with
    | .tuiTransparent => resolveLoop base rest colorCell
    | .tuiOpaque => c.toShown
    | .tuiColorBg => resolveLoop base rest (some c)
    | .tuiColorFgBg => resolveLoop base rest (some c)

def resolveCell (layers : List TuiPad) (base : VtBuf) (sr sc : Int) : Shown :=
  resolveLoop (baseCell base sr sc) (layers.reverse.map (·.cellAt sr sc)) none

def painted (layers : List TuiPad) (base : VtBuf) (sr sc : Int) : Shown :=
  layers.foldl (fun below p => (p.cellAt sr sc).paint below) (baseCell base sr sc)

/-- The topmost opaque cell. -/
def solid (cells : List TuiCell) : Option TuiCell := cells.find? (·.blend = .tuiOpaque)

/-- The overlays above the topmost opaque cell. -/
def overlays (cells : List TuiCell) : List TuiCell :=
  (cells.takeWhile (·.blend ≠ .tuiOpaque)).filter fun c => c.blend = .tuiColorBg ∨ c.blend = .tuiColorFgBg

/-- The colours that a painter leaves: the background of the topmost overlay, the foreground of the topmost one that has
a foreground. -/
def colours (overlays : List TuiCell) (below : Shown) : Color × Color :=
  ((overlays.find? (·.blend = .tuiColorFgBg)).elim below.style.fg (·.style.fg),
    overlays.head?.elim below.style.bg (·.style.bg))

/-- The topmost overlays have the colours of the opaque cell below them; or, where there is none, those of the lowest
overlay over the base. -/
def Blends (layers : List TuiPad) (base : VtBuf) (sr sc : Int) : Prop :=
  let cells := layers.reverse.map (·.cellAt sr sc)
  match solid cells with
  | some letter => (∀ top ∈ (overlays cells).head?, top.style.bg = letter.style.bg) ∧
      ∀ top ∈ (overlays cells).find? (·.blend = .tuiColorFgBg), top.style.fg = letter.style.fg
  | none => ∀ low ∈ (overlays cells).getLast?, (∀ top ∈ (overlays cells).head?, top.style.bg = low.style.bg) ∧
      ∀ top ∈ (overlays cells).find? (·.blend = .tuiColorFgBg),
        top.style.fg = if low.blend = .tuiColorFgBg then low.style.fg else (baseCell base sr sc).style.fg

theorem resolveLoop_eq (base : Shown) (cells : List TuiCell) (color : Option TuiCell) : resolveLoop base cells color =
      (solid cells).elim (((overlays cells).getLast?.or color).elim base (·.paint base)) (·.toShown) := by
  induction cells generalizing color with
  | nil => rfl
  | cons c rest ih =>
    have last : ((c :: overlays rest).getLast?).or color = (overlays rest).getLast?.or (some c) := by
      rw [getLast?_cons]
      cases (overlays rest).getLast? <;> rfl
    unfold resolveLoop
    cases kind : c.blend <;> simp_all [solid, overlays]

theorem painted_eq (base : Shown) (cells : List TuiCell) :
    cells.foldr TuiCell.paint base = (overlays cells).foldr TuiCell.paint ((solid cells).elim base (·.toShown)) := by
  induction cells with
  | nil => rfl
  | cons c rest ih =>
    rw [foldr_cons, ih]
    cases kind : c.blend <;> simp [solid, overlays, TuiCell.paint, kind]

theorem mem_overlays {cells c} (seen : c ∈ overlays cells) :
    c.blend = .tuiColorBg ∨ c.blend = .tuiColorFgBg := of_decide_eq_true (mem_filter.mp seen).2

theorem foldr_paint {overlays} (below : Shown) (only : ∀ c ∈ overlays, c.blend = .tuiColorBg ∨ c.blend = .tuiColorFgBg) :
    overlays.foldr TuiCell.paint below =
      { below with style.fg := (colours overlays below).1, style.bg := (colours overlays below).2 } := by
  induction overlays with
  | nil => rfl
  | cons c rest ih =>
    rw [foldr_cons, ih fun c member => only c (mem_cons_of_mem _ member)]
    rcases only c mem_cons_self with kind | kind <;> simp [TuiCell.paint, colours, kind]

theorem eq_foldr_paint_iff {overlays} {below shown : Shown}
    (only : ∀ c ∈ overlays, c.blend = .tuiColorBg ∨ c.blend = .tuiColorFgBg) (codepoint : shown.codepoint = below.codepoint)
    (attrs : shown.style.attrs = below.style.attrs) : shown = overlays.foldr TuiCell.paint below ↔
      shown.style.fg = (colours overlays below).1 ∧ shown.style.bg = (colours overlays below).2 := by
  rw [foldr_paint below only, Shown.ext_iff, Style.ext_iff]
  simp only [codepoint, attrs, true_and]

theorem lowest_fg {overlays low} {below : Shown} (lowest : overlays.getLast? = some low) :
    (if low.blend = .tuiColorFgBg then low.style.fg else below.style.fg) = (colours overlays below).1 ↔
      ∀ top, overlays.find? (·.blend = .tuiColorFgBg) = some top →
        top.style.fg = if low.blend = .tuiColorFgBg then low.style.fg else below.style.fg := by
  rw [colours]
  cases found : overlays.find? (·.blend = .tuiColorFgBg) with
  | none =>
    have none : low.blend ≠ .tuiColorFgBg := by
      have all := List.find?_eq_none.mp found low (mem_of_getLast? lowest)
      simpa using all
    simp [none]
  | some top => simp [eq_comm]

theorem lowest_bg {overlays low} (below : Shown) (lowest : overlays.getLast? = some low) :
    low.style.bg = (colours overlays below).2 ↔ ∀ top, overlays.head? = some top → top.style.bg = low.style.bg := by
  cases overlays with
  | nil => cases lowest
  | cons top rest => simp [colours, eq_comm]

/-- **A position shows the painter's result exactly if its overlays blend.** -/
theorem resolveCell_eq_iff (layers : List TuiPad) (base : VtBuf) (sr sc : Int) :
    resolveCell layers base sr sc = painted layers base sr sc ↔ Blends layers base sr sc := by
  unfold Blends
  extract_lets cells
  have all : painted layers base sr sc =
      (overlays cells).foldr TuiCell.paint ((solid cells).elim (baseCell base sr sc) (·.toShown)) := by
    rw [painted, ← painted_eq, foldr_map, ← foldl_eq_foldr_reverse]
  have only : ∀ c ∈ overlays cells, c.blend = .tuiColorBg ∨ c.blend = .tuiColorFgBg := fun c => mem_overlays
  rw [all, resolveCell, resolveLoop_eq]
  cases found : solid cells with
  | some letter =>
    refine (eq_foldr_paint_iff only rfl rfl).trans ?_
    rw [and_comm, colours]
    cases (overlays cells).head? <;> cases (overlays cells).find? (·.blend = .tuiColorFgBg) <;> simp [eq_comm]
  | none =>
    dsimp only [Option.elim]
    cases lowest : (overlays cells).getLast? with
    | none => simp [List.getLast?_eq_none_iff.mp lowest]
    | some low =>
      simp only [Option.some_or, Option.mem_def, Option.some.injEq, forall_eq']
      rw [← lowest_bg (baseCell base sr sc) lowest, ← lowest_fg lowest, and_comm]
      rcases only low (mem_of_getLast? lowest) with kind | kind
      · rw [eq_foldr_paint_iff only] <;> simp [TuiCell.paint, kind]
      · rw [eq_foldr_paint_iff only] <;> simp [TuiCell.paint, kind]

theorem overlay_over_letter_lost :
    let letter : TuiPad := ⟨fun _ _ => ⟨⟨0x41, {}⟩, .tuiOpaque⟩, 1, 1, 0, 0⟩
    let shade : TuiPad := ⟨fun _ _ => ⟨⟨0, { bg := .indexed 1 }⟩, .tuiColorBg⟩, 1, 1, 0, 0⟩
    resolveCell [letter, shade] (VtBuf.new 1 1 0) 0 0 = ⟨0x41, {}⟩ ∧
      painted [letter, shade] (VtBuf.new 1 1 0) 0 0 = ⟨0x41, { bg := .indexed 1 }⟩ := by
  decide

end Lumimux.Libtui
