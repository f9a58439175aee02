import Lumimux.Render.Redraw
import Lumimux.Render.Terminal
import Lumimux.Vt.SgrDump

/-!
# What the emit helpers do to the terminal

The renderer follows the cursor and the style of the terminal (`Tracked`); under that, each emit helper does what it is
for.
-/

namespace Lumimux.Librender
open Lib Utf8 Vt List

theorem sgrLoop_added {a b} (sgrA : a.Sgr) (sgrB : b.Sgr) (grows : attrsRemoved a b = false) (fg bg : Color)
    (rest : List Int) : sgrLoop 0 (asParams (addedAttrs a b) ++ rest) ⟨a, fg, bg⟩ = sgrLoop 0 rest ⟨b, fg, bg⟩ := by
  have bold (f : Bool) (s : Style) : (if f then sgrCode 1 s else s) = { s with attrs.bold := s.attrs.bold || f } := by
    cases f <;> simp [sgrCode]
  have dim (f : Bool) (s : Style) : (if f then sgrCode 2 s else s) = { s with attrs.dim := s.attrs.dim || f } := by
    cases f <;> simp [sgrCode]
  have italic (f : Bool) (s : Style) : (if f then sgrCode 3 s else s) = { s with attrs.italic := s.attrs.italic || f } := by
    cases f <;> simp [sgrCode]
  have underline (f : Bool) (s : Style) :
      (if f then sgrCode 4 s else s) = { s with attrs.underline := s.attrs.underline || f } := by
    cases f <;> simp [sgrCode]
  have blink (f : Bool) (s : Style) : (if f then sgrCode 5 s else s) = { s with attrs.blink := s.attrs.blink || f } := by
    cases f <;> simp [sgrCode]
  have reverse (f : Bool) (s : Style) :
      (if f then sgrCode 7 s else s) = { s with attrs.reverse := s.attrs.reverse || f } := by
    cases f <;> simp [sgrCode]
  have hidden (f : Bool) (s : Style) : (if f then sgrCode 8 s else s) = { s with attrs.hidden := s.attrs.hidden || f } := by
    cases f <;> simp [sgrCode]
  have strike (f : Bool) (s : Style) : (if f then sgrCode 9 s else s) = { s with attrs.strike := s.attrs.strike || f } := by
    cases f <;> simp [sgrCode]
  have added (x y : Bool) (kept : (x && !y) = false) : (x || (y && !x)) = y := by
    revert kept
    cases x <;> cases y <;> decide
  simp only [addedAttrs, asParams_append, append_assoc]
  rw [sgrLoop_flag, sgrLoop_flag, sgrLoop_flag, sgrLoop_flag, sgrLoop_flag, sgrLoop_flag, sgrLoop_flag, sgrLoop_flag]
  · simp only [attrsRemoved, Bool.or_eq_false_iff] at grows
    simp only [bold, dim, italic, underline, blink, reverse, hidden, strike]
    congr 2
    refine Attrs.ext ?_ ?_ ?_ ?_ ?_ ?_ ?_ ?_ ?_ ?_
    all_goals first
      | exact added _ _ (by tauto)
      | exact sgrA.1.trans sgrB.1.symm
      | exact sgrA.2.trans sgrB.2.symm
  all_goals decide

theorem sgrLoop_changed (plane : Plane) {cur new} (keeps : cur ≠ .default → new ≠ .default) (rest : List Int) {s}
    (current : plane.get s = cur) :
    sgrLoop 0 (asParams (changedColor plane.base cur new) ++ rest) s = sgrLoop 0 rest (plane.set s new) := by
  unfold changedColor
  split
  · rename_i same
    have unchanged : plane.set s new = s := by
      cases plane <;> exact same ▸ current ▸ rfl
    rw [unchanged]
    rfl
  · rename_i differs
    split
    · rename_i default
      exact absurd default (keeps fun cur => differs (default.trans cur.symm))
    · rename_i coloured
      exact sgrLoop_color plane new rest fun default => absurd default coloured

theorem sgrLoop_sgrChange (cur : Style) {new} (sgrNew : new.attrs.Sgr) :
    sgrLoop 0 (asParams (sgrChange cur new)) cur = new := by
  have reset : ∀ rest, sgrLoop 0 (asParams (if mustReset cur new then [0] else []) ++ rest) cur =
      sgrLoop 0 rest (if mustReset cur new then {} else cur) := by
    intro rest
    cases mustReset cur new <;> rfl
  obtain ⟨base, baseEq⟩ : ∃ base : Style, base = if mustReset cur new then {} else cur := ⟨_, rfl⟩
  have facts : base.attrs.Sgr ∧ attrsRemoved base.attrs new.attrs = false ∧
      (base.fg ≠ .default → new.fg ≠ .default) ∧ (base.bg ≠ .default → new.bg ≠ .default) := by
    cases must : mustReset cur new with
    | true =>
      rw [must] at baseEq
      subst baseEq
      refine ⟨⟨rfl, rfl⟩, ?_, fun default => absurd rfl default, fun default => absurd rfl default⟩
      simp [attrsRemoved]
    | false =>
      rw [must] at baseEq
      subst baseEq
      simp only [mustReset, Bool.or_eq_false_iff, Bool.and_eq_false_iff, decide_eq_false_iff_not, not_not] at must
      have kept := must.1.1
      simp only [attrsRemoved, sgrNew.1, sgrNew.2, Bool.or_eq_false_iff, Bool.not_false, Bool.and_true] at kept
      have sgrBase : base.attrs.Sgr := ⟨by tauto, by tauto⟩
      exact ⟨sgrBase, must.1.1, fun coloured => must.1.2.resolve_left coloured, fun coloured => must.2.resolve_left coloured⟩
  obtain ⟨sgr, grows, fg, bg⟩ := facts
  simp only [sgrChange, ← baseEq, asParams_append]
  rw [reset, ← baseEq]
  have attrs := sgrLoop_added sgr sgrNew grows base.fg base.bg
    (asParams (changedColor 30 base.fg new.fg) ++ asParams (changedColor 40 base.bg new.bg))
  have ground := sgrLoop_changed .bg bg [] (s := ⟨new.attrs, new.fg, base.bg⟩) rfl
  rw [append_nil] at ground
  exact attrs.trans ((sgrLoop_changed .fg fg _ (s := ⟨new.attrs, base.fg, base.bg⟩) rfl).trans ground)

theorem act_sgrChange (w : WidthTable) (remains : Remains) {t s} (sgr : s.attrs.Sgr) (differs : s ≠ t.style) :
    Term.act w remains t (.sgr (sgrChange t.style s)) = { t with style := s } := by
  have set := sgrLoop_sgrChange t.style sgr
  have some : sgrChange t.style s ≠ [] := by
    intro none
    rw [none] at set
    exact differs set.symm
  simp only [Term.act, if_neg some]
  exact congrArg (fun style => { t with style := style }) set

theorem separated_append (a b : List Nat) : separated (a ++ b) = separated a ++ separated b := flatMap_append

theorem length_separated_le {codes} (small : ∀ n ∈ codes, n < 10 ^ 3) : (separated codes).length ≤ 4 * codes.length := by
  induction codes with
  | nil => exact Nat.zero_le _
  | cons n rest ih =>
    obtain ⟨first, later⟩ := forall_mem_cons.mp small
    have digits := length_decimal_le first (by decide)
    have others := ih later
    simp only [separated, flatMap_cons, length_append, length_cons] at others ⊢
    omega

theorem length_joined_le (codes : List Nat) : (joined codes).length ≤ (separated codes).length := by
  cases codes with
  | nil => exact Nat.le_refl _
  | cons n rest => simp [joined, separated]

theorem length_addedAttrs_le (a b : Attrs) : (separated (addedAttrs a b)).length ≤ 8 * 4 := by
  have flag (set : Bool) {n : Nat} (small : n < 10 ^ 3) : (separated (if set then [n] else [])).length ≤ 4 := by
    cases set with
    | true => exact length_separated_le (forall_mem_singleton.mpr small)
    | false => exact Nat.zero_le _
  simp only [addedAttrs, separated_append, length_append]
  show _ ≤ 4 + 4 + 4 + 4 + 4 + 4 + 4 + 4
  gcongr <;> exact flag _ (by decide)

theorem length_changedColor_le {base} (low : base ≤ 40) (cur new : Color) :
    (separated (changedColor base cur new)).length ≤ 20 := by
  suffices small : (changedColor base cur new).length ≤ 5 ∧ ∀ n ∈ changedColor base cur new, n < 10 ^ 3 by
    have := length_separated_le small.2
    omega
  have byte (b : UInt8) : b.toNat < 256 := b.toNat_lt
  unfold changedColor colorCodes
  split_ifs
  · simp
  · simp only [length_singleton, forall_mem_singleton]
    omega
  · cases new with
    | default => simp
    | indexed index =>
      have := byte index
      dsimp only
      split_ifs <;> simp <;> omega
    | rgb r g b =>
      have := byte r
      have := byte g
      have := byte b
      simp
      omega

theorem length_sgr_le (cur new : Style) (txl : Option Txl) : (Out.bytes txl (.sgr (sgrChange cur new))).length ≤ 80 := by
  obtain ⟨base, same⟩ : ∃ base : Style, base = if mustReset cur new then {} else cur := ⟨_, rfl⟩
  have reset : (separated (if mustReset cur new then [0] else [])).length ≤ 2 := by
    cases mustReset cur new <;> decide
  have attrs := length_addedAttrs_le base.attrs new.attrs
  have fg := @length_changedColor_le 30 (by decide) base.fg new.fg
  have bg := @length_changedColor_le 40 (by decide) base.bg new.bg
  have short := length_joined_le (sgrChange cur new)
  simp only [sgrChange, ← same, separated_append, length_append] at short
  have ends : (ascii "\x1b[").length = 2 ∧ (ascii "m").length = 1 := ⟨rfl, rfl⟩
  simp only [Out.bytes, sgrChange, ← same, length_append, ends]
  omega

/-- **A style change is exact**: from any style the renderer shares with the terminal, to any target that SGR can
express, the bytes written leave the terminal as it was but in the target style, which is also the one tracked, and
they fit in the buffer of `emit_sgr`. -/
theorem emitSgr_exact (w : WidthTable) (remains : Remains) (txl : Option Txl) {d : Draw} {t : Term}
    (tracked : d.pen.style = t.style) {s : Style} (sgr : s.attrs.Sgr) :
    ∃ outs, (d.emitSgr s).out = d.out ++ outs ∧
      Term.feed w remains t (outs.flatMap (Out.bytes txl)) = { t with style := s } ∧
      (d.emitSgr s).pen = { d.pen with style := s } ∧ (outs.flatMap (Out.bytes txl)).length ≤ 80 := by
  unfold Draw.emitSgr
  split
  · rename_i same
    refine ⟨[], (append_nil _).symm, ?_, by rw [same], Nat.zero_le _⟩
    rw [same, tracked]
    rfl
  · rename_i differs
    rw [tracked] at differs ⊢
    refine ⟨[.sgr (sgrChange t.style s)], rfl, ?_, rfl, ?_⟩
    · have fed := feed_out w remains t (o := .sgr (sgrChange t.style s)) trivial []
      rw [act_sgrChange w remains sgr differs] at fed
      exact fed
    · rw [flatMap_singleton]
      exact length_sgr_le t.style s txl

theorem bold_cleared :
    ∃ outs, (Draw.emitSgr ⟨{ style.attrs.bold := true }, false, []⟩ {}).out = outs ∧
      Term.feed latestTable .keep { rows := 1, cols := 1, style.attrs.bold := true } (outs.flatMap (Out.bytes none)) =
        { rows := 1, cols := 1 } :=
  (emitSgr_exact latestTable .keep none rfl ⟨rfl, rfl⟩).imp fun _ exact => ⟨exact.1, exact.2.1⟩

section
variable (w : WidthTable) (remains : Remains) (t₀ : Term)

def Draw.term (d : Draw) : Term := d.out.foldl (Term.act w remains) t₀

theorem term_of_out {d e : Draw} {o : Out} (out : e.out = d.out ++ [o]) :
    e.term w remains t₀ = Term.act w remains (d.term w remains t₀) o := by
  simp only [Draw.term, out, foldl_append, foldl_cons, foldl_nil]

theorem act_size (t : Term) (o : Out) : (Term.act w remains t o).rows = t.rows ∧ (Term.act w remains t o).cols = t.cols := by
  cases o with
  | text cp =>
    simp only [Term.act, Term.print]
    split
    · exact ⟨rfl, rfl⟩
    · simp only [Term.write]
      split
      · rw [Term.wrap]
        split <;> exact ⟨rfl, rfl⟩
      · exact ⟨rfl, rfl⟩
  | _ => exact ⟨rfl, rfl⟩

theorem term_size (d : Draw) : (d.term w remains t₀).rows = t₀.rows ∧ (d.term w remains t₀).cols = t₀.cols := by
  have kept : ∀ (outs : List Out) (t : Term), (outs.foldl (Term.act w remains) t).rows = t.rows ∧
      (outs.foldl (Term.act w remains) t).cols = t.cols := by
    intro outs
    induction outs with
    | nil => exact fun t => ⟨rfl, rfl⟩
    | cons o outs ih =>
      intro t
      obtain ⟨rows, cols⟩ := act_size w remains t o
      rw [foldl_cons, (ih _).1, (ih _).2, rows, cols]
      exact ⟨rfl, rfl⟩
  exact kept d.out t₀

/-- The pen is where the terminal is. -/
structure Tracked (d : Draw) : Prop where
  row : ((d.term w remains t₀).row : Int) = d.pen.row
  col : ((d.term w remains t₀).col : Int) = d.pen.col
  style : (d.term w remains t₀).style = d.pen.style
  sgr : d.pen.style.attrs.Sgr
  plain : ∀ o ∈ d.out, o.Plain

def Draw.screen (d : Draw) : Nat → Nat → Cell := (d.term w remains t₀).screen

variable {w remains t₀} {d : Draw}

section
variable (tracked : Tracked w remains t₀ d)
include tracked

theorem plain_emit {o} (plain : o.Plain) : ∀ o' ∈ d.out ++ [o], o'.Plain := by
  intro o' member
  rcases mem_append.mp member with earlier | last
  · exact tracked.plain o' earlier
  · obtain rfl := mem_singleton.mp last
    exact plain

theorem still_tracked {e : Draw} {o : Out} (out : e.out = d.out ++ [o]) (plain : o.Plain)
    (still : ∀ t, Term.act w remains t o = t) (row : e.pen.row = d.pen.row) (col : e.pen.col = d.pen.col)
    (style : e.pen.style = d.pen.style) : Tracked w remains t₀ e ∧ e.screen w remains t₀ = d.screen w remains t₀ := by
  have same : e.term w remains t₀ = d.term w remains t₀ := by rw [term_of_out w remains t₀ out, still]
  refine ⟨⟨?_, ?_, ?_, ?_, ?_⟩, by rw [Draw.screen, same]; rfl⟩
  · rw [same, row]
    exact tracked.row
  · rw [same, col]
    exact tracked.col
  · rw [same, style]
    exact tracked.style
  · rw [style]
    exact tracked.sgr
  · rw [out]
    exact plain_emit tracked plain

theorem cup_tracked {row col} (inRows : row < t₀.rows) (inCols : col < t₀.cols) {e : Draw}
    (out : e.out = d.out ++ [.cup row col]) (pen : e.pen = { d.pen with row := row, col := col }) :
    Tracked w remains t₀ e ∧ e.screen w remains t₀ = d.screen w remains t₀ := by
  obtain ⟨rows, cols⟩ := term_size w remains t₀ d
  have after : e.term w remains t₀ = { d.term w remains t₀ with row := row, col := col } := by
    rw [term_of_out w remains t₀ out]
    simp only [Term.act, Term.cup, rows, cols]
    congr 1 <;> omega
  refine ⟨⟨?_, ?_, ?_, ?_, ?_⟩, ?_⟩
  · rw [after, pen]
  · rw [after, pen]
  · rw [after, pen]
    exact tracked.style
  · rw [pen]
    exact tracked.sgr
  · rw [out]
    exact plain_emit tracked trivial
  · rw [Draw.screen, after]
    rfl

theorem moveTo_tracked {row col} (inRows : row < t₀.rows) (inCols : col < t₀.cols) :
    Tracked w remains t₀ (d.moveTo row col) ∧ (d.moveTo row col).screen w remains t₀ = d.screen w remains t₀ := by
  unfold Draw.moveTo
  split
  · exact cup_tracked tracked inRows inCols rfl rfl
  · exact ⟨tracked, rfl⟩

theorem emitSgr_tracked {s : Style} (sgr : s.attrs.Sgr) :
    Tracked w remains t₀ (d.emitSgr s) ∧ (d.emitSgr s).screen w remains t₀ = d.screen w remains t₀ ∧
      (d.emitSgr s).pen = { d.pen with style := s } := by
  unfold Draw.emitSgr
  split
  · rename_i same
    exact ⟨tracked, rfl, by rw [same]⟩
  · rename_i differs
    have after : Draw.term w remains t₀ { d.emit (.sgr (sgrChange d.pen.style s)) with pen := { d.pen with style := s } } =
        { d.term w remains t₀ with style := s } := by
      rw [← tracked.style] at differs ⊢
      rw [term_of_out w remains t₀ rfl, act_sgrChange w remains sgr differs]
    refine ⟨⟨?_, ?_, ?_, sgr, plain_emit tracked trivial⟩, ?_, rfl⟩
    · rw [after]
      exact tracked.row
    · rw [after]
      exact tracked.col
    · rw [after]
    · rw [Draw.screen, after]
      rfl

end

structure GlyphOk (w : WidthTable) (c : Cell) : Prop where
  scalar : Scalar c.codepoint
  width : runeWidth w c.codepoint = c.width
  attrs : c.style.attrs.undercurl = false

def printed (c : Cell) : Cell := ⟨c.codepoint, drawStyle c, c.width⟩

theorem shows_printed (c : Cell) : Shows (printed c) c := ⟨rfl, rfl, rfl, rfl, .inl rfl⟩

theorem drawStyle_sgr {c} (plain : c.style.attrs.undercurl = false) : (drawStyle c).attrs.Sgr := ⟨plain, rfl⟩

theorem emitCell_tracked (tracked : Tracked w remains t₀ d) {c : Cell} (ok : GlyphOk w c) (visible : c.width ≠ 0) {row col : Nat}
    (atRow : d.pen.row = row) (atCol : d.pen.col = col) (room : col + c.width ≤ t₀.cols) : Tracked w remains t₀ (d.emitCell c) ∧
      (d.emitCell c).screen w remains t₀ = Function.update (d.screen w remains t₀) row
        (display.splice (remains.left (drawStyle c)) (d.screen w remains t₀ row) col c.width (display.glyph col (printed c))) ∧
      (d.emitCell c).pen.row = row ∧ (d.emitCell c).pen.col = (col + c.width : Nat) := by
  obtain ⟨styled, sameScreen, pen⟩ := emitSgr_tracked tracked (drawStyle_sgr ok.attrs)
  obtain ⟨-, cols⟩ := term_size w remains t₀ (d.emitSgr (drawStyle c))
  have positive : 0 < runeWidth w c.codepoint := by
    rw [ok.width]
    omega
  have width : (runeWidth w c.codepoint).toNat = c.width := by rw [ok.width, Int.toNat_natCast]
  have cursorRow : ((d.emitSgr (drawStyle c)).term w remains t₀).row = row := by
    have := styled.row
    rw [pen] at this
    simp only [atRow] at this
    omega
  have cursorCol : ((d.emitSgr (drawStyle c)).term w remains t₀).col = col := by
    have := styled.col
    rw [pen] at this
    simp only [atCol] at this
    omega
  have style : ((d.emitSgr (drawStyle c)).term w remains t₀).style = drawStyle c := by rw [styled.style, pen]
  have outs : (d.emitCell c).out = (d.emitSgr (drawStyle c)).out ++ [.text c.codepoint] := by
    simp only [Draw.emitCell, if_neg visible, Draw.emit]
  have after : (d.emitCell c).term w remains t₀ =
      { (d.emitSgr (drawStyle c)).term w remains t₀ with
        screen := Function.update (d.screen w remains t₀) row
          (display.splice (remains.left (drawStyle c)) (d.screen w remains t₀ row) col c.width (display.glyph col (printed c)))
        col := col + c.width } := by
    rw [term_of_out w remains t₀ outs]
    simp only [Term.act, Term.print, width, if_neg visible, Term.write, cursorCol, cols]
    rw [if_neg (by omega)]
    simp only [cursorCol, cursorRow, style, cols, ← sameScreen]
    rfl
  have newPen : (d.emitCell c).pen = { d.pen with style := drawStyle c, col := d.pen.col + c.width } := by
    simp only [Draw.emitCell, if_neg visible, Draw.emit, pen]
  refine ⟨⟨?_, ?_, ?_, ?_, ?_⟩, ?_, ?_, ?_⟩
  · rw [after, newPen]
    simp only [cursorRow, atRow]
  · rw [after, newPen]
    simp only [atCol]
    omega
  · rw [after, newPen]
    exact style
  · rw [newPen]
    exact drawStyle_sgr ok.attrs
  · rw [outs]
    have printable := printable_of_runeWidth_pos positive
    exact plain_emit styled ⟨ok.scalar, by omega⟩
  · rw [Draw.screen, after]
  · rw [newPen]
    exact atRow
  · rw [newPen]
    simp only [atCol]
    omega

theorem emitCell_continuation {c} (second : c.width = 0) : d.emitCell c = d := by
  simp only [Draw.emitCell, if_pos second]

theorem eraseTail_tracked (tracked : Tracked w remains t₀ d) {row start} (inRows : row < t₀.rows) (inCols : start < t₀.cols)
    (bg : Color) : Tracked w remains t₀ (d.eraseTail row start bg) ∧
      (d.eraseTail row start bg).screen w remains t₀ = Function.update (d.screen w remains t₀) row
        (display.splice (remains.left { bg := bg }) (d.screen w remains t₀ row) start (t₀.cols - start) fun _ => Cell.erase bg) := by
  have plainStyle : ({ bg := bg : Style }).attrs.Sgr := ⟨rfl, rfl⟩
  obtain ⟨styled, screen₁, pen₁⟩ := emitSgr_tracked tracked plainStyle
  obtain ⟨moved, screen₂⟩ := moveTo_tracked styled inRows inCols
  have pen₂ := moveTo_pen (d.emitSgr { bg := bg }) row start
  rw [pen₁] at pen₂
  obtain ⟨-, cols⟩ := term_size w remains t₀ ((d.emitSgr { bg := bg }).moveTo row start)
  rw [Draw.eraseTail]
  generalize (d.emitSgr { bg := bg }).moveTo row start = e at moved screen₂ pen₂ cols ⊢
  have cursorRow : (e.term w remains t₀).row = row := by
    have := moved.row
    rw [pen₂] at this
    simp only at this
    omega
  have cursorCol : (e.term w remains t₀).col = start := by
    have := moved.col
    rw [pen₂] at this
    simp only at this
    omega
  have style : (e.term w remains t₀).style = { bg := bg } := by rw [moved.style, pen₂]
  have last : min start (t₀.cols - 1) = start := by omega
  have after : (e.emit .el).term w remains t₀ = { e.term w remains t₀ with
      screen := Function.update (d.screen w remains t₀) row
        (display.splice (remains.left { bg := bg }) (d.screen w remains t₀ row) start (t₀.cols - start) fun _ => Cell.erase bg) } := by
    rw [term_of_out w remains t₀ rfl]
    simp only [Term.act, Term.el, Term.write, cursorCol, cursorRow, style, cols, last, ← screen₁, ← screen₂]
    rfl
  refine ⟨⟨?_, ?_, ?_, moved.sgr, plain_emit moved trivial⟩, ?_⟩
  · rw [after]
    exact moved.row
  · rw [after]
    exact moved.col
  · rw [after]
    exact moved.style
  · rw [Draw.screen, after]

end

end Lumimux.Librender
