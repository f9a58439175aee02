import Mathlib.Tactic

/-!
# Terminal cells (`libvt/vt_cell.c`, `vt_cell.h`)

A default colour carries no index; the attribute word is a record of its ten flags.
-/

namespace Lumimux.Vt

inductive Color
  | default
  | indexed (index : UInt8)
  | rgb (r g b : UInt8)
  deriving DecidableEq, Repr

@[ext]
structure Attrs where
  bold : Bool := false
  underline : Bool := false
  reverse : Bool := false
  italic : Bool := false
  blink : Bool := false
  undercurl : Bool := false
  dim : Bool := false
  hidden : Bool := false
  strike : Bool := false
  predicted : Bool := false
  deriving DecidableEq, Repr

@[ext]
structure Style where
  attrs : Attrs := {}
  fg : Color := .default
  bg : Color := .default
  deriving DecidableEq, Repr

@[ext]
structure Cell where
  codepoint : Nat
  style : Style := {}
  width : Nat
  deriving DecidableEq, Repr

def space : Nat := 0x20

def Cell.clear : Cell := ⟨space, {}, 1⟩

def Cell.erase (bg : Color) : Cell := { Cell.clear with style.bg := bg }

def Cell.continuation : Cell := { Cell.clear with width := 0 }

@[simp] theorem Cell.erase_default : Cell.erase .default = Cell.clear := rfl

@[simp] theorem Cell.clear_width : Cell.clear.width = 1 := rfl

@[simp] theorem Cell.erase_width (bg : Color) : (Cell.erase bg).width = 1 := rfl

@[simp] theorem Cell.continuation_width : Cell.continuation.width = 0 := rfl

/-- SGR can set the attributes. -/
def Attrs.Sgr (a : Attrs) : Prop := a.undercurl = false ∧ a.predicted = false
  deriving Decidable

end Lumimux.Vt
