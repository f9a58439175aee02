import Lumimux.Vt.Sequences
import Lumimux.Vt.SgrDump

/-!
# A dumped style fed to the parser

`dump_sgr` writes up to nineteen parameters, of which the parser keeps sixteen; the rest belongs to the background
(`cut_style`).
-/

namespace Lumimux.Vt
open Lib Utf8 List

variable {w : WidthTable}

def Attrs.number (a : Attrs) : Nat :=
  [a.bold, a.dim, a.italic, a.underline, a.blink, a.reverse, a.hidden, a.strike].count true

def Color.params : Color → Nat
  | .default => 0
  | .indexed index => if index.toNat < 16 then 1 else 3
  | .rgb _ _ _ => 5

def Style.params (s : Style) : Nat := 1 + s.attrs.number + s.fg.params + s.bg.params

theorem length_attrCodes (a : Attrs) : (attrCodes a).length = a.number := by
  have flag (f : Bool) (n : Nat) : (if f then [n] else []).length = [f].count true := by
    cases f <;> rfl
  have split : a.number = [a.bold].count true + [a.dim].count true + [a.italic].count true +
      [a.underline].count true + [a.blink].count true + [a.reverse].count true + [a.hidden].count true +
      [a.strike].count true := by
    rw [← count_append, ← count_append, ← count_append, ← count_append, ← count_append,
      ← count_append, ← count_append]
    rfl
  simp only [attrCodes, length_append, flag, split]

theorem Attrs.number_le (a : Attrs) : a.number ≤ 8 := count_le_length

theorem length_colorCodes (base : Nat) (c : Color) : (colorCodes base c).length = c.params := by
  cases c with
  | default => rfl
  | rgb r g b => rfl
  | indexed index =>
    simp only [colorCodes, Color.params]
    split_ifs
    · rfl
    · omega
    · rfl
    · rfl

theorem Color.params_le (c : Color) : c.params ≤ 5 := by
  unfold Color.params
  split
  · omega
  · split <;> omega
  · omega

theorem length_sgrCodes (s : Style) : (0 :: sgrCodes s).length = s.params := by
  simp only [sgrCodes, length_cons, length_append, length_attrCodes, length_colorCodes, Style.params]
  omega

def Style.PlainGround (s : Style) : Prop := ∀ r g b, s.bg ≠ .rgb r g b

theorem plainGround_ite {c : Prop} [Decidable c] {s t : Style} (yes : s.PlainGround) (no : t.PlainGround) :
    (if c then s else t).PlainGround := by
  split
  · exact yes
  · exact no

theorem sgrCode_plainGround (n : Nat) {s : Style} (plain : s.PlainGround) : (sgrCode n s).PlainGround := by
  have default (s : Style) : Style.PlainGround { s with bg := .default } := fun r g b same => Color.noConfusion same
  have indexed (s : Style) (i : UInt8) : Style.PlainGround { s with bg := .indexed i } :=
    fun r g b same => Color.noConfusion same
  unfold sgrCode
  repeat' apply plainGround_ite
  all_goals first | exact plain | exact default {} | exact default s | exact indexed s _

theorem sgrLoop_short (ps : List Int) (skip : Nat) {s} (short : ps.length < 5) (plain : s.PlainGround) :
    (sgrLoop skip ps s).PlainGround := by
  induction ps generalizing skip s with
  | nil =>
    rw [sgrLoop]
    exact plain
  | cons q rest ih =>
    rw [length_cons] at short
    have later (skip : Nat) {s : Style} (plain : s.PlainGround) : (sgrLoop skip rest s).PlainGround :=
      ih skip (by omega) plain
    cases skip with
    | succ skip => exact later skip plain
    | zero =>
      rw [sgrLoop]
      split_ifs
      · split
        · exact later _ plain
        · exact later _ plain
      · split
        · rename_i bg skip taken
          refine later _ ?_
          intro r g b same
          -- a direct colour would take four parameters behind the 48
          unfold extendedColor at taken
          split at taken
          · cases taken
            exact Color.noConfusion same
          · simp only [length_cons] at short
            omega
          · cases taken
        · exact later _ plain
      · exact later _ (sgrCode_plainGround _ plain)

theorem cut_background {c k} (two : 2 ≤ k) (cut : k < c.params) {s} (plain : s.bg = .default) :
    (sgrLoop 0 (asParams ((colorCodes 40 c).take k)) s).bg ≠ c := by
  cases c with
  | default => exact absurd cut (Nat.not_lt_zero k)
  | rgb r g b =>
    have short : (asParams ((colorCodes 40 (.rgb r g b)).take k)).length < 5 := by
      rw [asParams, length_map, length_take]
      exact lt_of_le_of_lt (min_le_left _ _) cut
    exact sgrLoop_short _ 0 short (fun r g b same => by rw [plain] at same; cases same) r g b
  | indexed index =>
    simp only [Color.params] at cut
    split at cut
    · omega
    · rename_i large
      obtain rfl : k = 2 := by omega
      have codes : colorCodes 40 (.indexed index) = [48, 5, index.toNat] := by
        rw [colorCodes, if_neg (by omega), if_neg large]
      rw [codes]
      intro same
      have kept : (sgrLoop 0 (asParams ([48, 5, index.toNat].take 2)) s).bg = s.bg := rfl
      rw [kept, plain] at same
      cases same

theorem cut_style {s} (sgr : s.attrs.Sgr) (long : vtMaxParams < s.params) (old : Style) :
    csiSgr ((asParams (0 :: sgrCodes s)).take vtMaxParams) old ≠ s := by
  have attrsLength : (asParams (attrCodes s.attrs)).length = s.attrs.number := by
    rw [asParams, length_map, length_attrCodes]
  have fgLength : (asParams (colorCodes 30 s.fg)).length = s.fg.params := by
    rw [asParams, length_map, length_colorCodes]
  have few := s.attrs.number_le
  have fgFew := s.fg.params_le
  have most : vtMaxParams = 15 + 1 := rfl
  unfold Style.params at long
  -- the reset, the attributes and the foreground fit in any case
  have split : (asParams (0 :: sgrCodes s)).take vtMaxParams =
      asParams [0] ++ (asParams (attrCodes s.attrs) ++ (asParams (colorCodes 30 s.fg) ++
        asParams ((colorCodes 40 s.bg).take (15 - s.attrs.number - s.fg.params)))) := by
    rw [most, show asParams (0 :: sgrCodes s) = (0 : Int) :: asParams (sgrCodes s) from rfl, take_succ_cons,
      sgrCodes, asParams_append, asParams_append, take_append, take_append, attrsLength, fgLength,
      take_of_length_le (by omega), take_of_length_le (by omega)]
    simp only [asParams, map_take]
    rfl
  have read : csiSgr ((asParams (0 :: sgrCodes s)).take vtMaxParams) old =
      sgrLoop 0 (asParams ((colorCodes 40 s.bg).take (15 - s.attrs.number - s.fg.params)))
        { attrs := s.attrs, fg := s.fg } := by
    rw [split]
    exact (sgrLoop_attrs sgr _).trans (sgrLoop_color .fg s.fg _ (s := { attrs := s.attrs }) fun _ => rfl)
  rw [read]
  intro same
  exact cut_background (by omega) (by omega) (s := { attrs := s.attrs, fg := s.fg }) rfl (congrArg Style.bg same)

theorem parse_opens (p : VtParse) : ∃ p' actions, parseBytes w p (ascii "\x1b[") = (p', actions) ∧ Reading p' 0 [] := by
  have ended : ∃ q actions, processEsc p = ({ utf8Cancel q with state := .escape, intermed := 0 }, actions) := by
    unfold processEsc
    exact ⟨_, _, rfl⟩
  obtain ⟨q, actions, esc⟩ := ended
  refine ⟨{ csiReset { utf8Cancel q with state := .escape, intermed := 0 } with state := .csiEntry }, actions, ?_,
    ⟨.inl rfl, rfl, rfl, rfl, rfl, rfl⟩⟩
  rw [show ascii "\x1b[" = [0x1B, 0x5B] by decide]
  simp [parseBytes, processByte, esc, processEscape]

theorem feed_dumpSgr (e : Emu) (s : Style) :
    ∃ old, (e.feed w (dumpSgr s)).vt.style = csiSgr ((asParams (0 :: sgrCodes s)).take vtMaxParams) old := by
  obtain ⟨p₁, actions, opened, reading⟩ := parse_opens (w := w) e.parse
  obtain ⟨p₂, -, parsed⟩ := parse_params (w := w) 0 (sgrCodes s) (f := 0x6D) (by decide) reading
  rw [map_readBack (sgrCodes_lt s)] at parsed
  refine ⟨(actions.foldl VtState.apply e.vt).style, ?_⟩
  rw [feed_eq_parseBytes, dumpSgr_eq, parseBytes_append, opened]
  simp only [parsed, foldl_append, foldl_cons, foldl_nil]
  rfl

/-- **A dumped style is read back** exactly when it takes no more parameters than the parser keeps,
from any state of the emulator. -/
theorem style_survives_iff (w : WidthTable) {s : Style} (sgr : s.attrs.Sgr) (e : Emu) :
    (e.feed w (dumpSgr s)).vt.style = s ↔ s.params ≤ vtMaxParams := by
  obtain ⟨old, style⟩ := feed_dumpSgr (w := w) e s
  rw [style]
  constructor
  · intro survives
    by_contra long
    exact cut_style sgr (not_le.mp long) old survives
  · intro room
    have whole : (asParams (0 :: sgrCodes s)).take vtMaxParams = asParams (0 :: sgrCodes s) := by
      refine take_of_length_le ?_
      rw [asParams, length_map, length_sgrCodes]
      exact room
    rw [whole]
    exact csiSgr_sgrCodes sgr old

def fullStyle : Style where
  attrs := { bold := true, dim := true, italic := true, underline := true, blink := true }
  fg := .rgb 1 2 3
  bg := .rgb 4 5 6

theorem fullStyle_survives : ((Emu.new 2 4 0).feed latestTable (dumpSgr fullStyle)).vt.style = fullStyle :=
  (style_survives_iff latestTable (by decide) (Emu.new 2 4 0)).mpr (by decide)

theorem reversed_lost : ((Emu.new 2 4 0).feed latestTable (dumpSgr { fullStyle with attrs.reverse := true })).vt.style ≠
      { fullStyle with attrs.reverse := true } := by
  decide +kernel

end Lumimux.Vt
