import Lumimux.Vt.Canvas
import Lumimux.Vt.Sequences
import Lumimux.Vt.SgrDump

/-!
# Replaying the grid of a dump

Feeding what a dump emits for a row paints the same cells (`feeds_cells`), and the row loop paints the grid: while
`sgr_active` is off, the style is the default one.
-/

namespace Lumimux.Vt
open Lib Utf8 List Option

variable {w : WidthTable}

/-- The bytes, no graphics command among them, take the terminal from `st` to `st'`. -/
def Feeds (w : WidthTable) (st : VtState) (bytes : Bytes) (st' : VtState) : Prop :=
  ∃ actions, Emits w bytes actions ∧ (∀ a ∈ actions, ¬ a.Graphics) ∧ actions.foldl VtState.apply st = st'

theorem Feeds.nil (st : VtState) : Feeds w st [] st := ⟨[], .nil, forall_mem_nil _, rfl⟩

theorem Feeds.append {st st₁ st₂ xs ys} (first : Feeds w st xs st₁) (second : Feeds w st₁ ys st₂) :
    Feeds w st (xs ++ ys) st₂ := by
  obtain ⟨as, emits₁, plain₁, rfl⟩ := first
  obtain ⟨bs, emits₂, plain₂, rfl⟩ := second
  exact ⟨as ++ bs, emits₁.append emits₂, forall_mem_append.mpr ⟨plain₁, plain₂⟩, foldl_append⟩

theorem Emits.feeds {bytes action} (h : Emits w bytes [action]) (plain : ¬ action.Graphics) (st : VtState) :
    Feeds w st bytes (st.apply action) := ⟨[action], h, forall_mem_singleton.mpr plain, rfl⟩

structure Glyph (w : WidthTable) where
  codepoint : Nat
  style : Style
  width : Nat
  scalar : Scalar codepoint
  width_eq : runeWidth w codepoint = width
  width_pos : 0 < width
  sgr : style.attrs.Sgr
  params : (0 :: sgrCodes style).length ≤ vtMaxParams

namespace Glyph

def cells (g : Glyph w) : List Cell := glyphCells g.codepoint g.style g.width

theorem one_or_two (g : Glyph w) : g.width = 1 ∨ g.width = 2 := by
  have small := runeWidth_le_two w g.codepoint
  have pos := g.width_pos
  rw [g.width_eq] at small
  omega

theorem length_cells (g : Glyph w) : g.cells.length = g.width := by
  have pos := g.width_pos
  simp only [cells, glyphCells, length_cons, length_replicate]
  omega

theorem emits (g : Glyph w) : Emits w (utf8Encode g.codepoint) [.print g.codepoint g.width] := by
  have pos : 0 < runeWidth w g.codepoint := by
    rw [g.width_eq]
    exact Int.natCast_pos.mpr g.width_pos
  obtain ⟨low, notDel⟩ := printable_of_runeWidth_pos pos
  have width : emitPrint w g.codepoint = .print g.codepoint g.width := by
    rw [emitPrint, if_neg (not_lt.mpr pos.le), g.width_eq, Int.toNat_natCast]
  rw [← width]
  exact emits_encode g.scalar low notDel

theorem encode_ne_nil (g : Glyph w) : utf8Encode g.codepoint ≠ [] := by
  intro empty
  have length := encode_length g.scalar
  rw [empty, length_nil] at length
  split_ifs at length

end Glyph

theorem emits_dumpSgr (g : Glyph w) : Emits w (dumpSgr g.style) [.csi (asParams (0 :: sgrCodes g.style)) 0 0x6D] := by
  rw [dumpSgr_eq]
  exact emits_csi 0 (sgrCodes g.style) (sgrCodes_lt g.style) g.params (by decide)

theorem emits_reset : Emits w (ascii "\x1b[0m") [.csi [0] 0 0x6D] := by
  have := emits_csi (w := w) 0 [] (by decide) (by decide) (f := 0x6D) (by decide)
  exact this

theorem emits_cup {row col} (hr : row < 655350) (hc : col < 655350) :
    Emits w (cupBytes row col) [.csi [(row : Int), (col : Int)] 0 0x48] := by
  have text : cupBytes row col = ascii "\x1b[" ++ (decimal row ++ separated [col] ++ [0x48]) := by
    rw [cupBytes, show ascii ";" = [0x3B] by decide, show ascii "H" = [0x48] by decide]
    simp [separated]
  rw [text]
  exact emits_csi row [col] (by simp [hr, hc]) (by simp [vtMaxParams]) (by decide)

theorem dumpCells_glyph (g : Glyph w) (row col : Nat) (active : Bool) (rest : List Cell) :
    dumpCells row col active (g.cells ++ rest) =
      ((dumpStyle row col active g.style).1
          ++ (utf8Encode g.codepoint :: (dumpCells row (col + g.width) (dumpStyle row col active g.style).2 rest).1),
        (dumpCells row (col + g.width) (dumpStyle row col active g.style).2 rest).2) := by
  have nonzero : g.width ≠ 0 := Nat.pos_iff_ne_zero.mp g.width_pos
  rw [Glyph.cells, glyphCells, cons_append, dumpCells, if_neg nonzero]
  simp only [if_neg g.encode_ne_nil]
  rcases g.one_or_two with one | two
  · rw [one]
    rfl
  · -- the continuation cell is skipped
    rw [two, show replicate (2 - 1) Cell.continuation ++ rest = Cell.continuation :: rest from rfl, dumpCells,
      if_pos Cell.continuation_width]
    rfl

section Paint

variable {base : VtState} {rows cols row col : Nat} {cells : List (List Cell)}

theorem feeds_style (g : Glyph w) {active style st} (h : Canvas base rows cols cells row col style st)
    (quiet : active = false → style = {}) (r c : Nat) :
    ∃ st', Feeds w st (dumpStyle r c active g.style).1.flatten st' ∧
      Canvas base rows cols cells row col g.style st' ∧ ((dumpStyle r c active g.style).2 = false → g.style = {}) := by
  unfold dumpStyle
  split
  · rename_i styled
    have painted := h.sgr (asParams (0 :: sgrCodes g.style))
    rw [csiSgr_sgrCodes g.sgr] at painted
    refine ⟨_, ?_, painted, fun off => by cases off⟩
    rw [flatten_singleton]
    exact (emits_dumpSgr g).feeds id st
  · rename_i plain
    have default_ : g.style = {} := not_not.mp plain
    split
    · have painted := h.sgr [0]
      rw [show csiSgr [0] style = {} from rfl, ← default_] at painted
      refine ⟨_, ?_, painted, fun _ => default_⟩
      rw [flatten_singleton]
      exact emits_reset.feeds id st
    · rename_i skipped
      have off : active = false := by
        cases active with
        | false => rfl
        | true => exact absurd (.inl rfl) skipped
      refine ⟨st, Feeds.nil st, ?_, fun _ => default_⟩
      rw [default_, ← quiet off]
      exact h

theorem feeds_cells (paintable : Paintable base) (glyphs : List (Glyph w)) {above below done old active style st}
    (h : Canvas base rows cols (above ++ (done ++ old) :: below) above.length done.length style st)
    (quiet : active = false → style = {}) (covered : old.length = (glyphs.flatMap Glyph.cells).length) : ∃ st' style' col',
      Feeds w st (dumpCells above.length done.length active (glyphs.flatMap Glyph.cells)).1.flatten st' ∧
      Canvas base rows cols (above ++ (done ++ glyphs.flatMap Glyph.cells) :: below) above.length col' style' st' ∧
      ((dumpCells above.length done.length active (glyphs.flatMap Glyph.cells)).2 = false → style' = {}) := by
  induction glyphs generalizing done old active style st with
  | nil =>
    obtain rfl : old = [] := eq_nil_of_length_eq_zero covered
    exact ⟨st, style, done.length, Feeds.nil st, h, quiet⟩
  | cons g rest ih =>
    rw [flatMap_cons] at covered ⊢
    rw [length_append, g.length_cells] at covered
    rw [dumpCells_glyph]
    -- the receiver's cells under this glyph, and those behind it
    obtain ⟨under, old', rfl, length⟩ : ∃ under old', old = under ++ old' ∧ under.length = g.width :=
      ⟨old.take g.width, old.drop g.width, (take_append_drop _ _).symm, by rw [length_take]; omega⟩
    rw [length_append] at covered
    obtain ⟨st₁, fed₁, styled, quiet₁⟩ := feeds_style g h quiet above.length done.length
    have printed := styled.print paintable g.codepoint g.one_or_two length
    have behind : done.length + g.width = (done ++ g.cells).length := by
      rw [length_append, g.length_cells]
    rw [show glyphCells g.codepoint g.style g.width = g.cells from rfl, ← append_assoc done, behind] at printed
    have covered' : old'.length = (rest.flatMap Glyph.cells).length := by omega
    obtain ⟨st₂, style₂, col₂, fed₂, painted, quiet₂⟩ := ih printed quiet₁ covered'
    rw [length_append, g.length_cells] at fed₂ quiet₂
    rw [append_assoc] at painted
    refine ⟨st₂, style₂, col₂, ?_, painted, quiet₂⟩
    rw [flatten_append, flatten_cons]
    exact fed₁.append ((g.emits.feeds id st₁).append fed₂)

theorem feeds_rows (paintable : Paintable base) (todo : List Row) {above old active style st}
    (h : Canvas base rows cols (above ++ old) row col style st) (quiet : active = false → style = {})
    (count : old.length = todo.length) (wide : 0 < cols) (small : rows < 655350)
    (glyphs : ∀ r ∈ todo, r.cells.length = cols ∧ ∃ gs : List (Glyph w), r.cells = gs.flatMap Glyph.cells) :
    ∃ st' style' row' col', Feeds w st (dumpRows above.length active todo).flatten st' ∧
      Canvas base rows cols (above ++ todo.map Row.cells) row' col' style' st' := by
  induction todo generalizing above old active style st row col with
  | nil =>
    obtain rfl : old = [] := eq_nil_of_length_eq_zero count
    exact ⟨st, style, row, col, Feeds.nil st, h⟩
  | cons r rest ih =>
    obtain ⟨first, old', rfl⟩ := exists_cons_of_length_eq_add_one count
    have total : (above ++ first :: old').length = rows := by
      rw [← h.screen, VtState.screen, length_map]
      exact h.shape.grid_length
    rw [length_append, length_cons] at total
    have firstLength : first.length = cols := by
      have member : first ∈ st.screen := by
        rw [h.screen]
        simp
      obtain ⟨r', isRow, rfl⟩ := mem_map.mp member
      exact h.shape.grid_rows r' isRow
    obtain ⟨length, gs, shape⟩ := glyphs r mem_cons_self
    have addressed : Canvas base rows cols (above ++ ([] ++ first) :: old') above.length ([] : List Cell).length style _ :=
      h.cup paintable (by omega) wide
    obtain ⟨st₁, style₁, col₁, fed₁, painted, quiet₁⟩ :=
      feeds_cells paintable gs addressed quiet (by rw [firstLength, ← length, shape])
    rw [← shape, nil_append, ← singleton_append, ← append_assoc] at painted
    obtain ⟨st₂, style₂, row₂, col₂, fed₂, finished⟩ :=
      ih painted (by rw [← shape] at quiet₁; exact quiet₁) (Nat.succ.inj count)
        fun r' member => glyphs r' (mem_cons_of_mem _ member)
    refine ⟨st₂, style₂, row₂, col₂, ?_, ?_⟩
    · rw [dumpRows, flatten_cons, flatten_append]
      rw [length_append, length_singleton] at fed₂
      rw [← shape] at fed₁
      exact ((emits_cup (by omega) (by decide)).feeds id st).append (fed₁.append fed₂)
    · rw [append_assoc] at finished
      exact finished

end Paint

structure WideRow (w : WidthTable) (row : List Cell) : Prop where
  followed : ∀ i c, row[i]? = some c → c.width = 2 → row[i + 1]? = some Cell.continuation
  preceded : ∀ i c, row[i]? = some c → c.width = 0 → ∃ j c', i = j + 1 ∧ row[j]? = some c' ∧ c'.width = 2
  printable : ∀ c ∈ row, c.width ≠ 0 → Scalar c.codepoint ∧ runeWidth w c.codepoint = c.width

theorem wideRow_iff (row : List Cell) : WideRow w row ↔
      (∀ i < row.length, (row[i]?.all fun c => decide (c.width = 2 → row[i + 1]? = some Cell.continuation)) = true) ∧
      (∀ i < row.length, (row[i]?.all fun c =>
        decide (c.width = 0 → 0 < i ∧ (row[i - 1]?.any fun c' => decide (c'.width = 2)) = true)) = true) ∧
      ∀ c ∈ row, c.width ≠ 0 → Scalar c.codepoint ∧ runeWidth w c.codepoint = c.width := by
  constructor
  · intro h
    refine ⟨fun i bound => ?_, fun i bound => ?_, h.printable⟩
    · rw [getElem?_eq_getElem bound, all_some, decide_eq_true_eq]
      exact h.followed i _ (getElem?_eq_getElem bound)
    · rw [getElem?_eq_getElem bound, all_some, decide_eq_true_eq]
      intro zero
      obtain ⟨j, c', rfl, before, two⟩ := h.preceded i _ (getElem?_eq_getElem bound) zero
      refine ⟨Nat.succ_pos j, ?_⟩
      rw [Nat.add_sub_cancel, before, any_some, decide_eq_true_eq]
      exact two
  · rintro ⟨followed, preceded, printable⟩
    refine ⟨fun i c found two => ?_, fun i c found zero => ?_, printable⟩
    · have := followed i (List.getElem?_eq_some_iff.mp found).1
      rw [found, all_some, decide_eq_true_eq] at this
      exact this two
    · have := preceded i (List.getElem?_eq_some_iff.mp found).1
      rw [found, all_some, decide_eq_true_eq] at this
      obtain ⟨pos, before⟩ := this zero
      obtain ⟨c', found', two⟩ := (any_eq_true _ _).mp before
      exact ⟨i - 1, c', by omega, found', of_decide_eq_true two⟩

instance (row : List Cell) : Decidable (WideRow w row) := decidable_of_iff _ (wideRow_iff row).symm

def Dumpable (c : Cell) : Prop := c.style.attrs.Sgr ∧ (0 :: sgrCodes c.style).length ≤ vtMaxParams
  deriving Decidable

theorem WideRow.drop {row rest n} (h : WideRow w row) (split : row.drop n = rest)
    (boundary : ∀ c, n ≠ 0 → row[n - 1]? = some c → c.width ≠ 2) : WideRow w rest := by
  subst split
  refine ⟨fun i c found two => ?_, fun i c found zero => ?_, fun c member => h.printable c (mem_of_mem_drop member)⟩
  · rw [getElem?_drop] at found ⊢
    exact h.followed (n + i) c found two
  · rw [getElem?_drop] at found
    obtain ⟨j, c', index, before, two⟩ := h.preceded (n + i) c found zero
    cases i with
    | zero =>
      -- the character in front of the cut is not wide
      exact absurd two (boundary c' (by omega) (by rw [show n - 1 = j by omega]; exact before))
    | succ i =>
      refine ⟨i, c', rfl, ?_, two⟩
      rw [getElem?_drop, show n + i = j by omega]
      exact before

theorem WideRow.exists_glyphs {row} (h : WideRow w row) (styles : ∀ c ∈ row, Dumpable c) :
    ∃ gs : List (Glyph w), row = gs.flatMap Glyph.cells := by
  induction length : row.length using Nat.strongRecOn generalizing row with
  | ind n ih =>
    cases row with
    | nil => exact ⟨[], rfl⟩
    | cons c rest =>
      have nonzero : c.width ≠ 0 := by
        intro zero
        obtain ⟨j, _, index, -⟩ := h.preceded 0 c rfl zero
        cases index
      obtain ⟨scalar, width⟩ := h.printable c mem_cons_self nonzero
      obtain ⟨sgr, params⟩ := styles c mem_cons_self
      let g : Glyph w := ⟨c.codepoint, c.style, c.width, scalar, width, Nat.pos_of_ne_zero nonzero, sgr, params⟩
      rw [length_cons] at length
      rcases g.one_or_two with one | two
      · have narrow : c.width = 1 := one
        obtain ⟨gs, rfl⟩ := ih rest.length (by omega)
          (h.drop (n := 1) rfl (by rintro c' - ⟨⟩; omega)) (fun c' member => styles c' (mem_cons_of_mem _ member)) rfl
        refine ⟨g :: gs, ?_⟩
        rw [flatMap_cons, show g.cells = c :: replicate (c.width - 1) Cell.continuation from rfl, narrow]
        rfl
      · have wide : c.width = 2 := two
        have next : rest[0]? = some Cell.continuation := h.followed 0 c rfl wide
        obtain ⟨rest', rfl⟩ : ∃ rest', rest = Cell.continuation :: rest' := by
          cases rest with
          | nil => cases next
          | cons d rest' => exact ⟨rest', by cases next; rfl⟩
        rw [length_cons] at length
        obtain ⟨gs, rfl⟩ := ih rest'.length (by omega)
          (h.drop (n := 2) rfl (by rintro c' - ⟨⟩; decide))
          (fun c' member => styles c' (mem_cons_of_mem _ (mem_cons_of_mem _ member))) rfl
        refine ⟨g :: gs, ?_⟩
        rw [flatMap_cons, show g.cells = c :: replicate (c.width - 1) Cell.continuation from rfl, wide]
        rfl

end Lumimux.Vt
