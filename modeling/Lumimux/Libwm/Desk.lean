import Lumimux.Libwm.Calls
import Lumimux.Libwm.Paint

/-!
# A manager and its terminals

What a client does with a window manager: calls, output for the terminals, and composites.
-/

namespace Lumimux.Libwm

open Lib Utf8 Vt

/-- A manager and the terminals its windows show. `painted` logs the theme and the terminals of the last repaint. -/
structure Desk (F : Type) where
  wm : Wm F
  vts : List Emu
  painted : Option (Theme × List Emu) := none

inductive DeskOp (F : Type)
  | call (c : Call F)
  | feed (vt : Nat) (bytes : Bytes)
  | composite (theme : Theme) (wild : Wild F)

/-- The windows whose terminals a client resizes to the window after a call. -/
abbrev Policy (F : Type) := Wm F → Call F → List UInt32

namespace Desk

variable {F : Type}

/-- The client resizes no terminal. -/
def keepSizes : Policy F := fun _ _ => []

/-- The attach client: after a window was maximized or restored, the grid arranged or a resize drag released. -/
def followers : Policy F := fun wm call =>
  match call with
  | .toggleMaximize id => [id]
  | .arrangeGrid => (wm.windows.filter (!·.minimized)).map Window.id
  | .mouseRelease => if wm.drag = .resizing then [wm.dragId] else []
  | _ => []

def sync (d : Desk F) (id : UInt32) : Desk F :=
  match (d.wm.wmFind id).bind fun win => win.vt.map fun i => (i, win) with
  | none => d
  | some (i, win) => { d with vts := d.vts.modify i fun e => { e with vt := e.vt.resize win.h.toNat win.w.toNat } }

def step [Arith F] (client : Policy F) (w : WidthTable) (d : Desk F) : DeskOp F → Desk F
  | .call c => (client d.wm c).foldl sync { d with wm := d.wm.call c }
  | .feed i bytes => { d with vts := d.vts.modify i fun e => e.feed w bytes }
  | .composite theme wild =>
    let done := wmComposite w wild theme d.wm d.vts
    ⟨done.1, done.2, if repaints d.wm d.vts then some (theme, done.2) else d.painted⟩

def contentReads (rows cols : Nat) (win : Window F) (vt : VtState) : List Int :=
  (contentRows win vt).flatMap fun row => rowReads rows cols win row.1

def reads (d : Desk F) : List (VtState × Int) :=
  if !repaints d.wm d.vts then []
  else d.wm.paintOrder.flatMap fun win =>
    ((win.terminal d.vts).map fun vt => (contentReads d.wm.rows d.wm.cols win vt).map fun c => (vt, c)).getD []

/-- A composite of this state reads only columns that the terminals have. -/
def ReadsInside (d : Desk F) : Prop := ∀ p ∈ d.reads, 0 ≤ p.2 ∧ p.2 < p.1.buf.cols
  deriving Decidable

/-- No shown window is wider than its terminal. -/
def Wide (d : Desk F) : Prop :=
  ∀ win ∈ d.wm.windows, win.minimized = false → ∀ vt ∈ win.terminal d.vts, win.w ≤ vt.buf.cols
  deriving Decidable

end Desk

end Lumimux.Libwm
