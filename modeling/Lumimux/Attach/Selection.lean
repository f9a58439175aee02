import Lumimux.Lib.Grid
import Lumimux.Utf8.Codec
import Lumimux.Vt.Cell
import Mathlib.Data.List.DropRight

/-!
# Selecting text (`cmd/attach/selection.c`)

`sel_highlight` inverts the selected cells and `sel_finish` copies their text; each computes the cells on its own.
-/

namespace Lumimux.Attach
open Lib Utf8 Vt List

def copyMax : Nat := 65536

inductive SelMode
  | char
  | word
  | line
  | block
  deriving DecidableEq

/-- The state of the selection: its start, its end, the columns of the window and the word or line of the press. -/
structure Sel where
  dragging : Bool
  visible : Bool
  mode : SelMode
  sr : Int
  sc : Int
  er : Int
  ec : Int
  colMin : Int
  colMax : Int
  anchorR : Int
  anchorC0 : Int
  anchorC1 : Int

abbrev Screen := Int → Int → Cell

def isWordSep (cp : Nat) : Bool :=
  cp = 0 || cp = 0x20 || cp = 0x09 || (0x21 ≤ cp && cp ≤ 0x2F) || (0x3A ≤ cp && cp ≤ 0x40) ||
    (0x5B ≤ cp && cp ≤ 0x60) || (0x7B ≤ cp && cp ≤ 0x7E)

def wordStart (line : Int → Cell) : (room : Nat) → Int → Int
  | 0, c0 => c0
  | room + 1, c0 => if isWordSep (line (c0 - 1)).codepoint then c0 else wordStart line room (c0 - 1)

def wordEnd (line : Int → Cell) : (room : Nat) → Int → Int
  | 0, c1 => c1
  | room + 1, c1 => if isWordSep (line (c1 + 1)).codepoint then c1 else wordEnd line room (c1 + 1)

def findWordBounds (screen : Screen) (row col cmin cmax : Int) : Int × Int :=
  (wordStart (screen row) (col - cmin).toNat col, wordEnd (screen row) (cmax - col).toNat col)

namespace Sel

def active (s : Sel) : Bool := s.dragging || s.visible

def normalize (s : Sel) : (Int × Int) × (Int × Int) :=
  if s.sr < s.er ∨ s.sr = s.er ∧ s.sc ≤ s.ec then ((s.sr, s.sc), (s.er, s.ec)) else ((s.er, s.ec), (s.sr, s.sc))

def beginWord (s : Sel) (row col winX winW : Int) (screen : Screen) : Sel :=
  let (c0, c1) := findWordBounds screen row col winX (winX + winW - 1)
  { s with
    dragging := true, visible := false, mode := .word, sr := row, sc := c0, er := row, ec := c1, colMin := winX,
    colMax := winX + winW - 1, anchorR := row, anchorC0 := c0, anchorC1 := c1 }

def updateWord (s : Sel) (row col : Int) (screen : Screen) : Sel :=
  let (c0, c1) := findWordBounds screen row col s.colMin s.colMax
  let back := row < s.anchorR ∨ row = s.anchorR ∧ c0 < s.anchorC0
  { s with
    sr := s.anchorR
    sc := if back then s.anchorC1 else s.anchorC0
    er := row
    ec := if back then c0 else c1 }

end Sel

def copyOut (buf text : Bytes) : Bytes := if buf.length + text.length < copyMax then buf ++ text else buf

def blank (cell : Cell) : Bool := cell.codepoint = space || cell.codepoint = 0

def cellText (cell : Cell) : Bytes :=
  if cell.codepoint = 0 ∧ cell.width = 0 then []
  else if cell.codepoint = 0 then [0x20]
  else utf8Encode cell.codepoint

def lastNonspace (line : Int → Cell) (start : Int) (columns : List Int) : Int :=
  columns.foldl (fun last c => if (line c).codepoint = 0 ∧ (line c).width = 0 then last else if blank (line c) then last else c)
    (start - 1)

def extractRowSpan (line : Int → Cell) (cols start stop : Int) (buf : Bytes) : Bytes :=
  let start := if start < 0 then 0 else start
  let stop := if stop ≥ cols then cols - 1 else stop
  (intRange start (lastNonspace line start (intRange start (stop + 1)) + 1)).foldl
    (fun buf c => copyOut buf (cellText (line c))) buf

def finishLoop (screen : Screen) (rows cols r1 : Int) (span : Int → Int × Int) (buf : Bytes) (r : Int) : Bytes :=
  if r < 0 ∨ r ≥ rows then buf
  else
    let buf := extractRowSpan (screen r) cols (span r).1 (span r).2 buf
    if r < r1 then copyOut buf [0x0A] else buf

namespace Sel

def finish (s : Sel) (screen : Screen) (rows cols : Int) : Sel × Bytes :=
  let copied :=
    if s.mode = .block then
      let r0 := if s.sr < s.er then s.sr else s.er
      let r1 := if s.sr < s.er then s.er else s.sr
      let c0 := if s.sc < s.ec then s.sc else s.ec
      let c1 := if s.sc < s.ec then s.ec else s.sc
      (intRange r0 (r1 + 1)).foldl (finishLoop screen rows cols r1 fun _ => (c0, c1)) []
    else
      let ((r0, c0), (r1, c1)) := s.normalize
      (intRange r0 (r1 + 1)).foldl
        (finishLoop screen rows cols r1 fun r => (if r = r0 then c0 else s.colMin, if r = r1 then c1 else s.colMax)) []
  ({ s with dragging := false, visible := true }, copied)

def invert (cell : Cell) : Cell := { cell with style.attrs.reverse := !cell.style.attrs.reverse }

def highlight (s : Sel) (screen : Screen) (rows cols : Int) : Screen :=
  if !s.active then screen
  else
    let ((r0, c0), (r1, c1)) :=
      if s.mode = .block then
        ((if s.sr < s.er then s.sr else s.er, if s.sc < s.ec then s.sc else s.ec),
          (if s.sr < s.er then s.er else s.sr, if s.sc < s.ec then s.ec else s.sc))
      else s.normalize
    fun r c =>
      let start := if s.mode = .block then c0 else if r = r0 then c0 else s.colMin
      let stop := if s.mode = .block then c1 else if r = r1 then c1 else s.colMax
      let start := if start < 0 then 0 else start
      let stop := if stop ≥ cols then cols - 1 else stop
      if r0 ≤ r ∧ r ≤ r1 ∧ r < rows ∧ 0 ≤ r ∧ start ≤ c ∧ c ≤ stop then invert (screen r c) else screen r c

def corners (s : Sel) : (Int × Int) × (Int × Int) :=
  if s.mode = .block then
    ((if s.sr < s.er then s.sr else s.er, if s.sc < s.ec then s.sc else s.ec),
      (if s.sr < s.er then s.er else s.sr, if s.sc < s.ec then s.ec else s.sc))
  else s.normalize

def span (s : Sel) (r : Int) : Int × Int :=
  if s.mode = .block then (s.corners.1.2, s.corners.2.2)
  else (if r = s.corners.1.1 then s.corners.1.2 else s.colMin, if r = s.corners.2.1 then s.corners.2.2 else s.colMax)

def Selected (s : Sel) (r c : Int) : Prop :=
  (s.corners.1.1 ≤ r ∧ r ≤ s.corners.2.1) ∧ (s.span r).1 ≤ c ∧ c ≤ (s.span r).2
  deriving Decidable

variable {s : Sel} {screen : Screen} {rows cols : Int}

theorem highlight_eq (active : s.active) (r c : Int) : s.highlight screen rows cols r c =
      if s.Selected r c ∧ (0 ≤ r ∧ r < rows) ∧ 0 ≤ c ∧ c < cols then invert (screen r c) else screen r c := by
  unfold highlight Selected span corners
  rw [active]
  by_cases block : s.mode = .block
  · simp only [block, if_true]
    refine if_congr ?_ rfl rfl
    split_ifs <;> omega
  · simp only [block, if_false]
    obtain ⟨⟨r0, c0⟩, r1, c1⟩ := s.normalize
    refine if_congr ?_ rfl rfl
    dsimp only
    split_ifs <;> omega

theorem finish_eq : (s.finish screen rows cols).2 =
      (intRange s.corners.1.1 (s.corners.2.1 + 1)).foldl (finishLoop screen rows cols s.corners.2.1 s.span) [] := by
  have spans : s.span = if s.mode = .block then fun _ => (s.corners.1.2, s.corners.2.2) else fun r =>
      (if r = s.corners.1.1 then s.corners.1.2 else s.colMin, if r = s.corners.2.1 then s.corners.2.2 else s.colMax) := by
    funext r
    unfold span
    split <;> rfl
  rw [spans, finish, corners]
  by_cases block : s.mode = .block <;> simp [block]

end Sel

theorem foldl_copyOut {chunks : List Bytes} {buf : Bytes} (fits : (buf ++ chunks.flatten).length < copyMax) :
    chunks.foldl copyOut buf = buf ++ chunks.flatten := by
  induction chunks generalizing buf with
  | nil => simp
  | cons chunk chunks ih =>
    rw [flatten_cons, ← append_assoc] at fits ⊢
    have now : copyOut buf chunk = buf ++ chunk := if_pos (by simp at fits ⊢; omega)
    rw [foldl_cons, now, ih fits]

def kept (line : Int → Cell) (columns : List Int) : List Int := columns.rdropWhile fun c => blank (line c)

theorem intRange_lastNonspace (line : Int → Cell) (a b : Int) :
    intRange a (lastNonspace line a (intRange a b) + 1) = kept line (intRange a b) := by
  suffices found : ∀ n : Nat, ∃ k : Nat, lastNonspace line a ((range n).map fun k : Nat => a + k) = a - 1 + k ∧
      kept line ((range n).map fun k : Nat => a + k) = (range k).map (fun k : Nat => a + k) by
    obtain ⟨k, last, columns⟩ := found (b - a).toNat
    rw [intRange, intRange, last, columns, show (a - 1 + k + 1 - a).toNat = k by omega]
  intro n
  induction n with
  | zero => exact ⟨0, by simp [lastNonspace], rfl⟩
  | succ n ih =>
    obtain ⟨k, last, columns⟩ := ih
    unfold kept lastNonspace at *
    rw [range_succ, map_append, map_singleton, foldl_append, rdropWhile_concat, last, columns]
    by_cases white : blank (line (a + n))
    · exact ⟨k, by simp [white], by simp [white]⟩
    · refine ⟨n + 1, ?_, by simp [white, range_succ]⟩
      have ink : (line (a + n)).codepoint ≠ 0 := fun zero => white (by simp [blank, zero])
      simp [white, ink]

/-- The columns of a row in which `marked` differs from the screen by the inversion, in order. -/
def invertedColumns (screen marked : Screen) (cols r : Int) : List Int :=
  (intRange 0 cols).filter fun c => (marked r c).style.attrs.reverse != (screen r c).style.attrs.reverse

namespace Sel

variable {s : Sel} {screen : Screen} {rows cols : Int}

/-- A row on the screen is followed by a line break, unless it is the last one of the selection. -/
def lineBreak (s : Sel) (rows r : Int) : Bytes :=
  if (0 ≤ r ∧ r < rows) ∧ r < s.corners.2.1 then [0x0A] else []

/-- The text of the cells that are inverted in `marked`: row by row from the first corner of the selection to the last,
each row without its trailing blanks and followed by its line break. -/
def invertedText (s : Sel) (screen marked : Screen) (rows cols : Int) : Bytes :=
  (intRange s.corners.1.1 (s.corners.2.1 + 1)).flatMap fun r =>
    (kept (screen r) (invertedColumns screen marked cols r)).flatMap (cellText ∘ screen r) ++ s.lineBreak rows r

/-- What `sel_finish` copies is the text of the cells that `sel_highlight` inverts, all of which are in the rows of the
selection and on the screen; highlighting twice restores the screen. -/
structure Faithful (s : Sel) (screen : Screen) (rows cols : Int) : Prop where
  copies : (s.invertedText screen (s.highlight screen rows cols) rows cols).length < copyMax →
    (s.finish screen rows cols).2 = s.invertedText screen (s.highlight screen rows cols) rows cols
  inside : ∀ r c, (s.highlight screen rows cols r c).style.attrs.reverse ≠ (screen r c).style.attrs.reverse →
    (s.corners.1.1 ≤ r ∧ r ≤ s.corners.2.1) ∧ (0 ≤ r ∧ r < rows) ∧ 0 ≤ c ∧ c < cols
  twice : s.highlight (s.highlight screen rows cols) rows cols = screen

theorem inverted_iff (active : s.active) (r c : Int) :
    (s.highlight screen rows cols r c).style.attrs.reverse ≠ (screen r c).style.attrs.reverse ↔
      s.Selected r c ∧ (0 ≤ r ∧ r < rows) ∧ 0 ≤ c ∧ c < cols := by
  rw [highlight_eq active]
  split <;> simp [*, invert]

def shown (s : Sel) (rows cols r : Int) : List Int :=
  if r < 0 ∨ r ≥ rows then []
  else
    intRange (if (s.span r).1 < 0 then 0 else (s.span r).1) ((if (s.span r).2 ≥ cols then cols - 1 else (s.span r).2) + 1)

def chunks (s : Sel) (screen : Screen) (rows cols r : Int) : List Bytes :=
  (kept (screen r) (s.shown rows cols r)).map (cellText ∘ screen r) ++ [s.lineBreak rows r]

theorem finishLoop_eq (buf : Bytes) (r : Int) :
    finishLoop screen rows cols s.corners.2.1 s.span buf r = (s.chunks screen rows cols r).foldl copyOut buf := by
  have nothing : ∀ buf, copyOut buf [] = buf := by simp [copyOut]
  rw [chunks, foldl_append, foldl_map]
  unfold finishLoop shown lineBreak
  by_cases off : r < 0 ∨ r ≥ rows
  · rw [if_pos off, if_pos off, if_neg (by omega)]
    exact (nothing buf).symm
  · rw [if_neg off, if_neg off, ← intRange_lastNonspace]
    by_cases last : r < s.corners.2.1
    · have inner : (0 ≤ r ∧ r < rows) ∧ r < s.corners.2.1 := ⟨by omega, last⟩
      rw [if_pos inner]
      exact if_pos last
    · have outer : ¬ ((0 ≤ r ∧ r < rows) ∧ r < s.corners.2.1) := fun inner => last inner.2
      rw [if_neg outer]
      exact (if_neg last).trans (nothing _).symm

theorem shown_eq (active : s.active) {r : Int} (between : s.corners.1.1 ≤ r ∧ r ≤ s.corners.2.1) :
    s.shown rows cols r = invertedColumns screen (s.highlight screen rows cols) cols r := by
  have sorted : (s.shown rows cols r).Pairwise (· < ·) := by
    unfold shown
    split
    · exact .nil
    · exact pairwise_intRange _ _
  -- both lists ascend, so they are equal if they have the same members
  refine List.Pairwise.eq_of_mem_iff sorted ((pairwise_intRange 0 cols).filter _) fun {c} => ?_
  rw [invertedColumns, mem_filter, mem_intRange, bne_iff_ne, inverted_iff active, Selected, shown]
  split
  · simp
    omega
  · rw [mem_intRange]
    split_ifs <;> omega

theorem invertedText_eq (active : s.active) : s.invertedText screen (s.highlight screen rows cols) rows cols =
    ((intRange s.corners.1.1 (s.corners.2.1 + 1)).flatMap (s.chunks screen rows cols)).flatten := by
  have pieces : ((intRange s.corners.1.1 (s.corners.2.1 + 1)).flatMap (s.chunks screen rows cols)).flatten =
      (intRange s.corners.1.1 (s.corners.2.1 + 1)).flatMap fun r => (s.chunks screen rows cols r).flatten := by
    rw [flatMap_def, flatten_flatten, map_map, ← flatMap_def]
    rfl
  rw [pieces, invertedText]
  refine flatMap_congr fun r member => ?_
  rw [mem_intRange] at member
  rw [← shown_eq active ⟨member.1, by omega⟩]
  simp [chunks, flatMap_def]

theorem faithful (active : s.active) : Faithful s screen rows cols := by
  refine ⟨fun fits => ?_, fun r c inverted => ?_, ?_⟩
  · have each : finishLoop screen rows cols s.corners.2.1 s.span =
        fun buf r => (s.chunks screen rows cols r).foldl copyOut buf := by
      funext buf r
      exact finishLoop_eq buf r
    rw [invertedText_eq active] at fits ⊢
    rw [finish_eq, each, ← foldl_flatMap, foldl_copyOut fits, nil_append]
  · obtain ⟨selected, onScreen⟩ := (inverted_iff active r c).mp inverted
    exact ⟨selected.1, onScreen⟩
  · funext r c
    rw [highlight_eq active, highlight_eq active]
    split <;> simp [*, invert]

theorem wordStart_le (line : Int → Cell) (room : Nat) (c : Int) : wordStart line room c ≤ c := by
  induction room generalizing c with
  | zero => exact Int.le_refl c
  | succ room ih =>
    have := ih (c - 1)
    rw [wordStart]
    split <;> omega

theorem le_wordEnd (line : Int → Cell) (room : Nat) (c : Int) : c ≤ wordEnd line room c := by
  induction room generalizing c with
  | zero => exact Int.le_refl c
  | succ room ih =>
    have := ih (c + 1)
    rw [wordEnd]
    split <;> omega

theorem findWordBounds_le (screen : Screen) (row col cmin cmax : Int) :
    (findWordBounds screen row col cmin cmax).1 ≤ (findWordBounds screen row col cmin cmax).2 :=
  Int.le_trans (wordStart_le ..) (le_wordEnd ..)

structure Drag where
  row : Int
  col : Int
  screen : Screen

def dragTo (s : Sel) (d : Drag) : Sel := s.updateWord d.row d.col d.screen

theorem foldl_dragTo (s : Sel) (drags : List Drag) (d : Drag) : (drags.foldl dragTo s).dragTo d = s.dragTo d := by
  induction drags generalizing s with
  | nil => rfl
  | cons e drags ih => exact ih (s.dragTo e)

/-- All columns of a word are selected. -/
def Covers (s : Sel) (r : Int) (word : Int × Int) : Prop := ∀ c, word.1 ≤ c → c ≤ word.2 → s.Selected r c

/-- The words end in the order they begin, within the columns of the selection. -/
def Meet (colMin colMax : Int) (ar pr : Int) (a p : Int × Int) : Prop :=
  if pr < ar then p.2 ≤ colMax ∧ colMin ≤ a.1
  else if ar < pr then a.2 ≤ colMax ∧ colMin ≤ p.1
  else if p.1 < a.1 then p.2 ≤ a.2
  else a.2 ≤ p.2

section
variable (words : s.mode = .word) (press : s.anchorC0 ≤ s.anchorC1) {d : Drag} {p : Int × Int}
  (pointer : findWordBounds d.screen d.row d.col s.colMin s.colMax = p)
include words press pointer

theorem corners_dragTo : (s.dragTo d).corners =
      if d.row < s.anchorR ∨ d.row = s.anchorR ∧ p.1 < s.anchorC0 then ((d.row, p.1), (s.anchorR, s.anchorC1))
      else ((s.anchorR, s.anchorC0), (d.row, p.2)) := by
  have order : p.1 ≤ p.2 := pointer ▸ findWordBounds_le ..
  unfold corners normalize dragTo updateWord
  rw [pointer, words, if_neg (by decide)]
  by_cases back : d.row < s.anchorR ∨ d.row = s.anchorR ∧ p.1 < s.anchorC0
  · simp only [back, if_true]
    exact if_neg (by omega)
  · simp only [back, if_false]
    exact if_pos (by omega)

theorem covers_iff :
    (s.dragTo d).Covers s.anchorR (s.anchorC0, s.anchorC1) ∧ (s.dragTo d).Covers d.row p ↔
      Meet s.colMin s.colMax s.anchorR d.row (s.anchorC0, s.anchorC1) p := by
  have order : p.1 ≤ p.2 := pointer ▸ findWordBounds_le ..
  have corners := corners_dragTo words press pointer
  have linear : (s.dragTo d).mode ≠ .block := by simp [dragTo, updateWord, words]
  have columns : (s.dragTo d).colMin = s.colMin ∧ (s.dragTo d).colMax = s.colMax := ⟨rfl, rfl⟩
  unfold Covers Selected span Meet
  rw [if_neg linear, if_neg linear, columns.1, columns.2, corners]
  constructor
  · rintro ⟨anchor, under⟩
    have left := anchor s.anchorC0 (Int.le_refl _) press
    have right := anchor s.anchorC1 press (Int.le_refl _)
    have first := under p.1 (Int.le_refl _) order
    have last := under p.2 order (Int.le_refl _)
    clear anchor under
    split_ifs at * <;> dsimp only at * <;> omega
  · intro meets
    refine ⟨fun c low high => ?_, fun c low high => ?_⟩ <;> split_ifs at * <;> dsimp only at * <;> omega

end

/-- **Whatever is selected, the highlighted cells are the copied ones; a drag by words selects the words of the press
and of the pointer exactly if their ranges meet.** -/
theorem selection_faithful (s : Sel) (row col winX winW : Int) (screen : Screen) (drags : List Drag) (d : Drag) :
    let pressed := s.beginWord row col winX winW screen
    let word := findWordBounds screen row col winX (winX + winW - 1)
    let under := findWordBounds d.screen d.row d.col winX (winX + winW - 1)
    let dragged := (drags ++ [d]).foldl dragTo pressed
    (∀ s : Sel, s.active → ∀ screen rows cols, Faithful s screen rows cols) ∧
      (dragged.Covers row word ∧ dragged.Covers d.row under ↔ Meet winX (winX + winW - 1) row d.row word under) := by
  intro pressed word under dragged
  refine ⟨fun s active screen rows cols => faithful active, ?_⟩
  have last : dragged = pressed.dragTo d := foldl_append.trans (foldl_dragTo pressed drags d)
  rw [last]
  exact covers_iff rfl (findWordBounds_le ..) rfl

def fooBar : Screen := fun _ c => ⟨[0x66, 0x6F, 0x6F, 0x2C, 0x62, 0x61, 0x72].getD c.toNat space, {}, 1⟩

def idle : Sel := ⟨false, false, .char, 0, 0, 0, 0, 0, 0, 0, 0, 0⟩

theorem comma_drag_shrinks :
    findWordBounds fooBar 0 3 0 9 = (0, 6) ∧ ¬ ((idle.beginWord 0 3 0 10 fooBar).dragTo ⟨0, 1, fooBar⟩).Covers 0 (0, 6) :=
  ⟨by decide, fun covers => absurd (covers 6 (by decide) (by decide)) (by decide)⟩

end Sel

end Lumimux.Attach
