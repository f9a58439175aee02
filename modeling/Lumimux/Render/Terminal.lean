import Lumimux.Lib.Glyphs
import Lumimux.Lib.Scan
import Lumimux.Render.Render
import Lumimux.Utf8.RoundTrip
import Lumimux.Utf8.RuneWidth

/-!
# The terminal

What the renderer assumes of its terminal: positioning, erasing, SGR, printing with autowrap.
-/

namespace Lumimux.Librender
open Lib Utf8 Vt List

structure Shows (t c : Cell) : Prop where
  codepoint : t.codepoint = c.codepoint
  width : t.width = c.width
  attrs : t.style.attrs = (drawStyle c).attrs
  bg : t.style.bg = c.style.bg
  fg : t.style.fg = c.style.fg ∨ (c.codepoint = space ∧ c.style.attrs = {})

def display : Display Cell Cell where
  width := Cell.width
  span := Cell.width
  half c := { c with width := 0 }
  shows := Shows
  width_half _ := rfl
  width_shows shows := shows.width

/-- What a terminal leaves of a wide glyph, given the style it writes with and the cell that is left: no new
wide glyph. -/
structure Remains where
  left : Style → Cell → Cell
  narrow : ∀ style c, (left style c).width = 2 → c.width = 2

def Remains.keep : Remains := ⟨fun _ c => c, fun _ _ wide => wide⟩

def Remains.erase : Remains := ⟨fun style _ => Cell.erase style.bg, fun _ _ wide => absurd wide (by simp)⟩

structure Term where
  rows : Nat
  cols : Nat
  screen : Nat → Nat → Cell := fun _ _ => Cell.clear
  row : Nat := 0
  col : Nat := 0
  style : Style := {}

namespace Term

variable (w : WidthTable) (remains : Remains)

def write (t : Term) (lo n : Nat) (cells : Nat → Cell) : Term :=
  let line := display.splice (remains.left t.style) (t.screen t.row) lo n cells
  { t with screen := Function.update t.screen t.row line }

def cup (t : Term) (row col : Nat) : Term := { t with row := min (row - 1) (t.rows - 1), col := min (col - 1) (t.cols - 1) }

def ed (t : Term) : Term := { t with screen := fun _ _ => Cell.erase t.style.bg }

def el (t : Term) : Term :=
  let lo := min t.col (t.cols - 1)
  write remains t lo (t.cols - lo) fun _ => Cell.erase t.style.bg

def wrap (t : Term) : Term :=
  if t.row + 1 < t.rows then { t with row := t.row + 1, col := 0 }
  else { t with screen := fun r c => if r + 1 < t.rows then t.screen (r + 1) c else Cell.erase t.style.bg, col := 0 }

def print (t : Term) (cp : Nat) : Term :=
  let n := (runeWidth w cp).toNat
  if n = 0 then t
  else
    let t := if t.col + n > t.cols then t.wrap else t
    let t := write remains t t.col n (display.glyph t.col ⟨cp, t.style, n⟩)
    { t with col := t.col + n }

def params (text : Bytes) : List Nat := (text.splitOn 0x3B).map fun digits => digits.foldl (readDigit none) 0

def csi (t : Term) (text : Bytes) (final : UInt8) : Term :=
  let ps := params text
  if text.head? = some 0x3F then t
  else if final = 0x48 then t.cup (ps.getD 0 0) (ps.getD 1 0)
  else if final = 0x4A then if ps.getD 0 0 = 2 then t.ed else t
  else if final = 0x4B then if ps.getD 0 0 = 0 then el remains t else t
  else if final = 0x6D then { t with style := sgrLoop 0 (ps.map Int.ofNat) t.style }
  else t

def next (t : Term) : Bytes → Term × Bytes
  | [] => (t, [])
  | 0x1B :: 0x5B :: rest =>
    let text := rest.takeWhile fun b => 0x20 ≤ b ∧ b < 0x40
    match rest.drop text.length with
    | [] => (t, [])
    | final :: rest => (csi remains t text final, rest)
  | b :: rest =>
    let rune := utf8Decode (b :: rest)
    (print w remains t rune.1, rest.drop (rune.2 - 1))

def feedLoop : Nat → Term → Bytes → Term
  | 0, t, _ => t
  | n + 1, t, bytes => if bytes = [] then t else feedLoop n (next w remains t bytes).1 (next w remains t bytes).2

def feed (t : Term) (bytes : Bytes) : Term := feedLoop w remains bytes.length t bytes

def act (t : Term) : Out → Term
  | .syncBegin => t
  | .syncEnd => t
  | .cup row col => t.cup (row + 1).toNat (col + 1).toNat
  | .cursorVis _ => t
  | .clear => (t.cup 0 0).ed
  | .reset => { t with style := {} }
  | .sgr codes => { t with style := sgrLoop 0 ((if codes = [] then [0] else codes).map Int.ofNat) t.style }
  | .el => el remains t
  | .text codepoint => print w remains t codepoint

end Term

section
variable (w : WidthTable) (remains : Remains)

namespace Term

theorem length_next (t : Term) (b : UInt8) (rest : Bytes) : (next w remains t (b :: rest)).2.length ≤ rest.length := by
  unfold next
  split
  · exact Nat.zero_le _
  · rename_i more same
    obtain ⟨-, rfl⟩ := List.cons.inj same
    dsimp only
    split
    · exact Nat.zero_le _
    · rename_i final behind shape
      have length := congrArg List.length shape
      simp only [length_drop, length_cons] at length ⊢
      omega
  · rename_i b' rest' _ same
    obtain ⟨-, rfl⟩ := List.cons.inj same
    simp only [length_drop]
    omega

theorem feedLoop_enough {n} (t : Term) {bytes} (enough : bytes.length ≤ n) :
    feedLoop w remains n t bytes = feed w remains t bytes := by
  suffices both : ∀ m, bytes.length ≤ m → feedLoop w remains n t bytes = feedLoop w remains m t bytes from
    both _ (Nat.le_refl _)
  induction n generalizing t bytes with
  | zero =>
    obtain rfl := eq_nil_of_length_eq_zero (Nat.le_zero.mp enough)
    rintro (_ | m) - <;> rfl
  | succ n ih =>
    cases bytes with
    | nil => rintro (_ | m) - <;> rfl
    | cons b rest =>
      intro m enough'
      simp only [length_cons] at enough enough'
      obtain ⟨m, rfl⟩ := Nat.exists_eq_succ_of_ne_zero (n := m) (by omega)
      have shorter := length_next w remains t b rest
      rw [feedLoop, feedLoop, if_neg (cons_ne_nil _ _), if_neg (cons_ne_nil _ _)]
      exact ih _ (by omega) m (by omega)

theorem feed_next (t : Term) {bytes} (some : bytes ≠ []) :
    feed w remains t bytes = feed w remains (next w remains t bytes).1 (next w remains t bytes).2 := by
  obtain ⟨b, rest, rfl⟩ := exists_cons_of_ne_nil some
  rw [feed, length_cons, feedLoop, if_neg some, feedLoop_enough w remains _ (length_next w remains t b rest)]

theorem feed_csi (t : Term) {text} (inside : ∀ b ∈ text, 0x20 ≤ b ∧ b < 0x40) {final} (ends : ¬ final < 0x40)
    (rest : Bytes) :
    feed w remains t (0x1B :: 0x5B :: (text ++ final :: rest)) = feed w remains (csi remains t text final) rest := by
  have taken : (text ++ final :: rest).takeWhile (fun b => 0x20 ≤ b ∧ b < 0x40) = text := by
    rw [takeWhile_append_of_pos (by simpa using inside), takeWhile_cons_of_neg (by simp [ends]), append_nil]
  rw [feed_next w remains t (cons_ne_nil _ _), next]
  simp only [taken, drop_left]

theorem feed_glyph (t : Term) {cp} (scalar : Scalar cp) (visible : cp ≠ 0x1B) (rest : Bytes) :
    feed w remains t (utf8Encode cp ++ rest) = feed w remains (print w remains t cp) rest := by
  have decoded := decode_encode scalar rest
  obtain ⟨b, tail, shape⟩ : ∃ b tail, utf8Encode cp = b :: tail := by
    refine exists_cons_of_ne_nil fun none => ?_
    have length := encode_length scalar
    rw [none] at length
    split_ifs at length
  rw [shape, cons_append] at decoded ⊢
  have plain : b ≠ 0x1B := by
    rintro rfl
    simp only [utf8Decode] at decoded
    exact visible (Prod.mk.inj decoded).1.symm
  have round : next w remains t (b :: (tail ++ rest)) = (print w remains t cp, rest) := by
    unfold next
    split
    · rename_i none
      cases none
    · rename_i more same
      exact absurd (List.cons.inj same).1 plain
    · rename_i b' rest' _ same
      obtain ⟨rfl, rfl⟩ := List.cons.inj same
      simp only [decoded, length_cons, Nat.add_sub_cancel, drop_left]
  rw [feed_next w remains t (cons_ne_nil _ _), round]

end Term

def ParamByte (b : UInt8) : Prop := isDigit b = true ∨ b = 0x3B

theorem decimal_paramByte {n b} (member : b ∈ decimal n) : b ≠ 0x3B ∧ ParamByte b := by
  have digit := decimal_isDigit n b member
  refine ⟨?_, .inl digit⟩
  rintro rfl
  exact absurd digit (by decide)

theorem ParamByte.range {b} (byte : ParamByte b) : (0x20 ≤ b ∧ b < 0x40) ∧ b ≠ 0x3F := by
  rcases byte with digit | rfl
  · simp only [isDigit, Bool.and_eq_true, decide_eq_true_eq] at digit
    have low : (0x20 : UInt8) ≤ 48 := by decide
    have high : (57 : UInt8) < 0x40 := by decide
    refine ⟨⟨UInt8.le_trans low digit.1, UInt8.lt_of_le_of_lt digit.2 high⟩, ?_⟩
    rintro rfl
    exact absurd digit.2 (by decide)
  · decide

theorem joined_cons_cons (n m : Nat) (rest : List Nat) : joined (n :: m :: rest) = decimal n ++ 0x3B :: joined (m :: rest) := by
  simp [joined, separated]

theorem joined_paramByte {codes b} (member : b ∈ joined codes) : ParamByte b := by
  cases codes with
  | nil => cases member
  | cons n rest =>
    simp only [joined, separated, mem_append, mem_flatMap, mem_cons] at member
    rcases member with first | ⟨m, -, rfl | later⟩
    · exact (decimal_paramByte first).2
    · exact .inr rfl
    · exact (decimal_paramByte later).2

theorem read_decimal (n : Nat) : (decimal n).foldl (readDigit none) 0 = n := decimal_read rfl

theorem params_joined (codes : List Nat) : Term.params (joined codes) = if codes = [] then [0] else codes := by
  induction codes with
  | nil => rfl
  | cons n rest ih =>
    have plain : 0x3B ∉ decimal n := fun member => (decimal_paramByte member).1 rfl
    cases rest with
    | nil =>
      rw [joined, show separated [] = [] from rfl, append_nil, Term.params, splitOn_eq_singleton plain]
      simp [read_decimal]
    | cons m rest =>
      rw [Term.params] at ih ⊢
      rw [joined_cons_cons, splitOn_append_cons_self_of_not_mem plain, map_cons, ih, read_decimal]
      simp

/-- A text is a scalar value other than ESC. -/
def Out.Plain : Out → Prop
  | .text cp => Scalar cp ∧ cp ≠ 0x1B
  | _ => True

theorem feed_joined (t : Term) (codes : List Nat) {final} (ends : ¬ final < 0x40) (rest : Bytes) :
    Term.feed w remains t (0x1B :: 0x5B :: (joined codes ++ final :: rest)) =
      Term.feed w remains (Term.csi remains t (joined codes) final) rest :=
  Term.feed_csi w remains t (fun _ member => (joined_paramByte member).range.1) ends rest

theorem csi_joined (t : Term) (codes : List Nat) (final : UInt8) : Term.csi remains t (joined codes) final =
      if final = 0x48 then t.cup ((if codes = [] then [0] else codes).getD 0 0) ((if codes = [] then [0] else codes).getD 1 0)
      else if final = 0x4A then if (if codes = [] then [0] else codes).getD 0 0 = 2 then t.ed else t
      else if final = 0x4B then if (if codes = [] then [0] else codes).getD 0 0 = 0 then Term.el remains t else t
      else if final = 0x6D then { t with style := sgrLoop 0 ((if codes = [] then [0] else codes).map Int.ofNat) t.style }
      else t := by
  have noMark : (joined codes).head? ≠ some 0x3F := fun head => (joined_paramByte (mem_of_mem_head? head)).range.2 rfl
  rw [Term.csi, if_neg noMark, params_joined]

theorem feed_out (t : Term) {o} (plain : o.Plain) (rest : Bytes) :
    Term.feed w remains t (o.bytes none ++ rest) = Term.feed w remains (Term.act w remains t o) rest := by
  cases o with
  | syncBegin => exact @Term.feed_csi w remains t (ascii "?2026") (by decide +kernel) _ (by decide +kernel) rest
  | syncEnd => exact @Term.feed_csi w remains t (ascii "?2026") (by decide +kernel) _ (by decide +kernel) rest
  | cursorVis shown =>
    cases shown with
    | true | false => exact @Term.feed_csi w remains t (ascii "?25") (by decide +kernel) _ (by decide +kernel) rest
  | cup row col =>
    have text : (Out.cup row col).bytes none ++ rest =
        0x1B :: 0x5B :: (joined [(row + 1).toNat, (col + 1).toNat] ++ 0x48 :: rest) := by
      simp [Out.bytes, cupText, fmtInt, joined, separated, ascii]
    rw [text, feed_joined w remains t _ (by decide), csi_joined]
    rfl
  | clear =>
    have text : Out.clear.bytes none ++ rest = 0x1B :: 0x5B :: (joined [] ++ 0x48 :: 0x1B :: 0x5B :: (joined [2] ++ 0x4A :: rest)) := rfl
    rw [text, feed_joined w remains t _ (by decide), feed_joined w remains _ _ (by decide), csi_joined, csi_joined]
    rfl
  | reset =>
    have text : Out.reset.bytes none ++ rest = 0x1B :: 0x5B :: (joined [0] ++ 0x6D :: rest) := rfl
    rw [text, feed_joined w remains t _ (by decide), csi_joined]
    rfl
  | sgr codes =>
    have text : (Out.sgr codes).bytes none ++ rest = 0x1B :: 0x5B :: (joined codes ++ 0x6D :: rest) := by
      simp [Out.bytes, ascii]
    rw [text, feed_joined w remains t _ (by decide), csi_joined]
    rfl
  | el =>
    have text : Out.el.bytes none ++ rest = 0x1B :: 0x5B :: (joined [] ++ 0x4B :: rest) := rfl
    rw [text, feed_joined w remains t _ (by decide), csi_joined]
    rfl
  | text cp =>
    obtain ⟨scalar, visible⟩ := plain
    have some : utf8Encode cp ≠ [] := by
      intro none
      have length := encode_length scalar
      rw [none] at length
      split_ifs at length
    have bytes : (Out.text cp).bytes none = utf8Encode cp := by
      simp only [Out.bytes, glyphText, if_neg some]
    rw [bytes]
    exact Term.feed_glyph w remains t scalar visible rest

theorem feed_outs (t : Term) {outs : List Out} (plain : ∀ o ∈ outs, o.Plain) :
    Term.feed w remains t (outs.flatMap (Out.bytes none)) = outs.foldl (Term.act w remains) t := by
  induction outs generalizing t with
  | nil => rfl
  | cons o outs ih =>
    rw [flatMap_cons, feed_out w remains t (plain o mem_cons_self), foldl_cons,
      ih _ fun o member => plain o (mem_cons_of_mem _ member)]

end

end Lumimux.Librender
