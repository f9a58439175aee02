import Lumimux.Vt.Dump

/-!
# A dumped style is read back

`csi_sgr` on the parameters of `dump_sgr` gives the dumped style, whatever style was in effect.
-/

namespace Lumimux.Vt
open Lib List

def asParams (codes : List Nat) : List Int := codes.map Int.ofNat

@[simp] theorem asParams_append (xs ys : List Nat) : asParams (xs ++ ys) = asParams xs ++ asParams ys :=
  map_append

theorem sgrLoop_code {n : Nat} (fg : n ≠ 38) (bg : n ≠ 48) (rest : List Int) (s : Style) :
    sgrLoop 0 ((n : Int) :: rest) s = sgrLoop 0 rest (sgrCode n s) := by
  rw [sgrLoop]
  simp [fg, bg]

theorem sgrLoop_flag {n} (fg : n ≠ 38) (bg : n ≠ 48) (f : Bool) (rest : List Int) (s : Style) :
    sgrLoop 0 (asParams (if f then [n] else []) ++ rest) s = sgrLoop 0 rest (if f then sgrCode n s else s) := by
  cases f with
  | false => rfl
  | true => exact sgrLoop_code fg bg rest s

theorem sgrLoop_attrs {a} (h : a.Sgr) (rest : List Int) :
    sgrLoop 0 (asParams (attrCodes a) ++ rest) {} = sgrLoop 0 rest { attrs := a } := by
  obtain ⟨bold, underline, reverse, italic, blink, undercurl, dim, hidden, strike, predicted⟩ := a
  obtain ⟨undercurl, predicted⟩ : undercurl = false ∧ predicted = false := h
  subst undercurl predicted
  simp only [attrCodes, asParams_append, append_assoc]
  rw [sgrLoop_flag, sgrLoop_flag, sgrLoop_flag, sgrLoop_flag, sgrLoop_flag, sgrLoop_flag, sgrLoop_flag, sgrLoop_flag]
  · congr 1
    revert bold underline reverse italic blink dim hidden strike
    decide
  all_goals decide

theorem ofInt_toNat (b : UInt8) : UInt8.ofInt (b.toNat : Int) = b := by
  have small := b.toNat_lt
  rw [UInt8.ofInt, show (b.toNat : Int) % 2 ^ 8 = b.toNat by omega, Int.toNat_natCast, UInt8.ofNat_toNat]

inductive Plane
  | fg
  | bg

def Plane.base : Plane → Nat
  | .fg => 30
  | .bg => 40

def Plane.get (s : Style) : Plane → Color
  | .fg => s.fg
  | .bg => s.bg

def Plane.set (s : Style) (c : Color) : Plane → Style
  | .fg => { s with fg := c }
  | .bg => { s with bg := c }

theorem sgrLoop_color (plane : Plane) (c : Color) (rest : List Int) {s} (h : c = .default → plane.get s = .default) :
    sgrLoop 0 (asParams (colorCodes plane.base c) ++ rest) s = sgrLoop 0 rest (plane.set s c) := by
  cases c with
  | default =>
    have same : plane.set s .default = s := by
      cases plane <;> exact h rfl ▸ rfl
    rw [same]
    rfl
  | rgb r g b =>
    have read : sgrLoop 0 (asParams (colorCodes plane.base (.rgb r g b)) ++ rest) s =
        sgrLoop 0 rest (plane.set s (.rgb (UInt8.ofInt r.toNat) (UInt8.ofInt g.toNat) (UInt8.ofInt b.toNat))) := by
      cases plane <;> rfl
    rw [read, ofInt_toNat, ofInt_toNat, ofInt_toNat]
  | indexed index =>
    have back := UInt8.ofNat_toNat (x := index)
    simp only [colorCodes]
    split
    · rename_i low
      generalize index.toNat = n at low back
      subst back
      interval_cases n <;> cases plane <;> rfl
    · split
      · rename_i high low
        generalize index.toNat = n at low high back
        subst back
        interval_cases n <;> first | omega | (cases plane <;> rfl)
      · have read : sgrLoop 0 (asParams [plane.base + 8, 5, index.toNat] ++ rest) s =
            sgrLoop 0 rest (plane.set s (.indexed (UInt8.ofInt index.toNat))) := by
          cases plane <;> rfl
        rw [read, ofInt_toNat]

theorem colorCodes_lt {base} (small : base ≤ 40) (c : Color) : ∀ n ∈ colorCodes base c, n < 256 := by
  intro n member
  cases c with
  | default => cases member
  | indexed index =>
    have := index.toNat_lt
    simp only [colorCodes] at member
    split_ifs at member <;> simp at member <;> omega
  | rgb r g b =>
    have := r.toNat_lt
    have := g.toNat_lt
    have := b.toNat_lt
    simp only [colorCodes, mem_cons, not_mem_nil, or_false] at member
    omega

theorem attrCodes_lt (a : Attrs) : ∀ n ∈ attrCodes a, n < 10 := by
  intro n member
  simp only [attrCodes, mem_append] at member
  grind

theorem sgrCodes_lt (s : Style) : ∀ n ∈ 0 :: sgrCodes s, n < 655350 := by
  intro n member
  simp only [sgrCodes, mem_cons, mem_append] at member
  rcases member with rfl | attr | fg | bg
  · decide
  · exact (attrCodes_lt _ n attr).trans (by decide)
  · exact (colorCodes_lt (by decide) _ n fg).trans (by decide)
  · exact (colorCodes_lt (by decide) _ n bg).trans (by decide)

theorem dumpSgr_eq (s : Style) : dumpSgr s = ascii "\x1b[" ++ (decimal 0 ++ separated (sgrCodes s) ++ [0x6D]) := by
  rw [dumpSgr, show ascii "\x1b[0" = ascii "\x1b[" ++ decimal 0 by decide, show ascii "m" = [0x6D] by decide]
  simp only [append_assoc]

theorem csiSgr_sgrCodes {s} (h : s.attrs.Sgr) (old : Style) : csiSgr (asParams (0 :: sgrCodes s)) old = s := by
  have reset : csiSgr (asParams (0 :: sgrCodes s)) old = sgrLoop 0 (asParams (sgrCodes s)) {} := rfl
  have attrs := sgrLoop_attrs h (asParams (colorCodes 30 s.fg) ++ (asParams (colorCodes 40 s.bg) ++ []))
  have fg := sgrLoop_color .fg s.fg (asParams (colorCodes 40 s.bg) ++ []) (s := { attrs := s.attrs }) fun _ => rfl
  have bg := sgrLoop_color .bg s.bg [] (s := { attrs := s.attrs, fg := s.fg }) fun _ => rfl
  rw [reset, sgrCodes, asParams_append, asParams_append, ← append_nil (asParams (colorCodes 40 s.bg))]
  exact attrs.trans (fg.trans bg)

end Lumimux.Vt
