import Lumimux.Vt.Cell

/-!
# Select Graphic Rendition (`csi_sgr` in `libvt/vt_ops.c`)

Parameters are integers with -1 for a missing one. The arguments of an extended colour are a count to skip.
-/

namespace Lumimux.Vt

def extendedColor : List Int → Option (Color × Nat)
  | 5 :: n :: _ => some (.indexed (UInt8.ofInt n), 2)
  | 2 :: r :: g :: b :: _ => some (.rgb (UInt8.ofInt r) (UInt8.ofInt g) (UInt8.ofInt b), 4)
  | _ => none

def sgrCode (p : Nat) (s : Style) : Style :=
  if p = 0 then {}
  else if p = 1 then { s with attrs.bold := true }
  else if p = 2 then { s with attrs.dim := true }
  else if p = 3 then { s with attrs.italic := true }
  else if p = 4 then { s with attrs.underline := true }
  else if p = 5 then { s with attrs.blink := true }
  else if p = 7 then { s with attrs.reverse := true }
  else if p = 8 then { s with attrs.hidden := true }
  else if p = 9 then { s with attrs.strike := true }
  else if p = 21 then { s with attrs.bold := false }
  else if p = 22 then { s with attrs := { s.attrs with bold := false, dim := false } }
  else if p = 23 then { s with attrs.italic := false }
  else if p = 24 then { s with attrs.underline := false }
  else if p = 25 then { s with attrs.blink := false }
  else if p = 27 then { s with attrs.reverse := false }
  else if p = 28 then { s with attrs.hidden := false }
  else if p = 29 then { s with attrs.strike := false }
  else if 30 ≤ p ∧ p ≤ 37 then { s with fg := .indexed (UInt8.ofNat (p - 30)) }
  else if p = 39 then { s with fg := .default }
  else if 40 ≤ p ∧ p ≤ 47 then { s with bg := .indexed (UInt8.ofNat (p - 40)) }
  else if p = 49 then { s with bg := .default }
  else if 90 ≤ p ∧ p ≤ 97 then { s with fg := .indexed (UInt8.ofNat (p - 90 + 8)) }
  else if 100 ≤ p ∧ p ≤ 107 then { s with bg := .indexed (UInt8.ofNat (p - 100 + 8)) }
  else s

def sgrLoop : Nat → List Int → Style → Style
  | _, [], s => s
  | skip + 1, _ :: rest, s => sgrLoop skip rest s
  | 0, q :: rest, s =>
    -- a missing parameter counts as 0
    let p := q.toNat
    if p = 38 then
      match extendedColor rest with
      | some (fg, skip) => sgrLoop skip rest { s with fg := fg }
      | none => sgrLoop 0 rest s
    else if p = 48 then
      match extendedColor rest with
      | some (bg, skip) => sgrLoop skip rest { s with bg := bg }
      | none => sgrLoop 0 rest s
    else sgrLoop 0 rest (sgrCode p s)

/-- SGR with its parameters. -/
def csiSgr (params : List Int) (s : Style) : Style :=
  if params = [] then {} else sgrLoop 0 params s

end Lumimux.Vt
