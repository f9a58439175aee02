import Lumimux.Vt.Ops
import Lumimux.Vt.Parse

/-!
# The emulator: a parser over a terminal state

Feeding applies the actions of each byte in order. `EmuOp` is what an owner can do. A DCS or APC string goes to the
callback that the owner of the parser installed: `Emu.feed` is without one, `Emu.feedWith` with any (`DcsCb`).
-/

namespace Lumimux.Vt
open Utf8

/-- The call that `vt_ops_default` makes for an action of the parser. It has none for DCS and APC strings. -/
def VtState.apply (st : VtState) : VtAction → VtState
  | .print cp width => st.opPrint cp width
  | .execute c => st.opExecute c
  | .csi params intermed final => st.opCsi params intermed final
  | .esc intermed final => st.opEsc intermed final
  | .osc data => st.opOsc data
  | .dcs _ _ => st

/-- A terminal and the parser that feeds it. -/
structure Emu where
  vt : VtState
  parse : VtParse := {}
  deriving DecidableEq, Repr

def Emu.new (rows cols : Nat) (scrollback : Int) : Emu := { vt := VtState.new rows cols scrollback }

def Emu.step (w : WidthTable) (e : Emu) (b : UInt8) : Emu :=
  let (parse, actions) := processByte w e.parse b
  ⟨actions.foldl VtState.apply e.vt, parse⟩

def Emu.feed (w : WidthTable) (e : Emu) (bytes : Bytes) : Emu := bytes.foldl (Emu.step w) e

/-- A kitty graphics command, an APC string that begins with `G`. -/
def VtAction.Graphics : VtAction → Prop
  | .dcs introducer data => introducer = 0x5F ∧ data.head? = some 0x47
  | _ => False

instance (a : VtAction) : Decidable a.Graphics := by
  cases a <;> unfold VtAction.Graphics <;> infer_instance

/-- What an installed callback (`window_dcs_account`, `dcs_passthru`) does to the terminal: it accounts for the room an
image takes, which moves the cursor and may scroll, and leaves the terminal alone for every other string. -/
structure DcsCb where
  call : UInt8 → Bytes → VtState → VtState
  graphicsOnly : ∀ introducer data st, ¬ (VtAction.dcs introducer data).Graphics → call introducer data st = st

def DcsCb.none : DcsCb := ⟨fun _ _ st => st, fun _ _ _ _ => rfl⟩

def VtState.applyWith (cb : DcsCb) (st : VtState) : VtAction → VtState
  | .dcs introducer data => cb.call introducer data st
  | a => st.apply a

def Emu.stepWith (cb : DcsCb) (w : WidthTable) (e : Emu) (b : UInt8) : Emu :=
  let (parse, actions) := processByte w e.parse b
  ⟨actions.foldl (VtState.applyWith cb) e.vt, parse⟩

def Emu.feedWith (cb : DcsCb) (w : WidthTable) (e : Emu) (bytes : Bytes) : Emu := bytes.foldl (Emu.stepWith cb w) e

theorem VtState.applyWith_plain (cb : DcsCb) (st : VtState) {a : VtAction} (plain : ¬ a.Graphics) :
    st.applyWith cb a = st.apply a := by
  cases a with
  | dcs introducer data => exact cb.graphicsOnly introducer data st plain
  | print | execute | csi | esc | osc => rfl

theorem Emu.feedWith_append (cb : DcsCb) (w : WidthTable) (e : Emu) (xs ys : Bytes) :
    e.feedWith cb w (xs ++ ys) = (e.feedWith cb w xs).feedWith cb w ys := List.foldl_append

inductive EmuOp
  | feed (bytes : Bytes)
  | resize (rows cols : ℕ+)
  | altscreenEnter
  | altscreenLeave
  | parseReset

def EmuOp.apply (w : WidthTable) (e : Emu) : EmuOp → Emu
  | .feed bytes => e.feed w bytes
  | .resize rows cols => { e with vt := e.vt.resize rows cols }
  | .altscreenEnter => { e with vt := e.vt.altscreenEnter }
  | .altscreenLeave => { e with vt := e.vt.altscreenLeave }
  | .parseReset => { e with parse := e.parse.reset }

def EmuOp.run (w : WidthTable) (e : Emu) (ops : List EmuOp) : Emu := ops.foldl (EmuOp.apply w) e

@[simp] theorem Emu.feed_cons (w : WidthTable) (e : Emu) (b : UInt8) (rest : Bytes) :
    e.feed w (b :: rest) = (e.step w b).feed w rest := rfl

theorem Emu.feed_append (w : WidthTable) (e : Emu) (xs ys : Bytes) :
    e.feed w (xs ++ ys) = (e.feed w xs).feed w ys := List.foldl_append

end Lumimux.Vt
