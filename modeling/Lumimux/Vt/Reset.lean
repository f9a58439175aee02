import Lumimux.Vt.Convergence

/-!
# A reset ends every divergence

A dump carries no pen, margins or modes, so a replica can drift. RIS keeps the saved cursor.
-/

namespace Lumimux.Vt
open Lib Utf8

variable (w : WidthTable) {rows cols : Nat} {st : VtState} {e : Emu}

theorem escape_feed (e : Emu) (final : UInt8) (known : final = 0x63 ∨ final = 0x37) :
    (e.feed w [0x1B, final]).vt = (e.step w 0x1B).vt.opEsc 0 final ∧ Ground (e.feed w [0x1B, final]).parse := by
  have opened : ∃ p : VtParse, (e.step w 0x1B).parse = { p with state := .escape, intermed := 0, utf8Need := 0 } := by
    cases state : e.parse.state <;> simp only [Emu.step, processByte, processEsc, state, if_true] <;> exact ⟨_, rfl⟩
  obtain ⟨p, parse⟩ := opened
  show ((e.step w 0x1B).step w final).vt = _ ∧ Ground ((e.step w 0x1B).step w final).parse
  rw [Emu.step, parse]
  rcases known with rfl | rfl <;> exact ⟨rfl, rfl, rfl⟩

theorem escape_pending (ground : Ground e.parse) : (e.step w 0x1B).vt = e.vt := by
  simp [Emu.step, processByte, processEsc, ground.1]

theorem reset_fresh (ok : st.Ok rows cols) (scrollback : Int) : FreshHidden rows cols st.fullReset.cursorSave ∧
    SameScreen (VtState.new rows cols scrollback) st.fullReset.cursorSave := by
  have left := ok.altscreenLeave
  have cleared : st.fullReset.buf = st.altscreenLeave.buf.clearRows 0 st.altscreenLeave.buf.rows .default :=
    VtState.buf_setBuf ..
  refine ⟨⟨rfl, rfl, rfl, ?_, rfl, rfl, rfl, rfl, rfl, rfl, ?_, fun shown => by cases shown⟩, ⟨?_, rfl, rfl, rfl⟩⟩
  · exact congrArg Int.ofNat left.rows_eq
  · exact congrArg defaultTabstops left.cols_eq
  · show st.fullReset.buf.grid.map Row.cells = (VtBuf.new rows cols _).grid.map Row.cells
    rw [cleared, left.rows_eq, cells_clearRows left.buf]
    simp [VtBuf.new, rowAlloc]

theorem reset_twin (ok : e.Ok rows cols) (scrollback : Int) :
    (Emu.new rows cols scrollback).Twin (e.feed w (ascii "\x1bc\x1b7")) := by
  obtain ⟨reset, idle⟩ := escape_feed w e 0x63 (.inl rfl)
  obtain ⟨saved, ground⟩ := escape_feed w (e.feed w [0x1B, 0x63]) 0x37 (.inr rfl)
  have opened := (ok.step w 0x1B).vt
  obtain ⟨hidden, same⟩ := reset_fresh opened scrollback
  refine ⟨?_, (live_of_ground ground).symm⟩
  show VtState.Twin _ ((e.feed w [0x1B, 0x63]).feed w [0x1B, 0x37]).vt
  rw [saved, escape_pending w idle, reset]
  exact twin_of_fresh (Emu.Ok.new opened.rows_pos opened.cols_pos scrollback).vt opened.fullReset.cursorSave same
    ⟨rfl, rfl, rfl, rfl, rfl, rfl, rfl, rfl, rfl, rfl, rfl, fun shown => by cases shown⟩ hidden

/-- **RIS and DECSC make any terminal a new one**: after any history, what follows shows as on a new terminal. -/
theorem reset_as_new (rows cols rows' cols' : ℕ+) (scrollback scrollback' : Int) (before : List EmuOp)
    (after : Bytes) :
    SameScreen ((Emu.new rows cols scrollback).feed w after).vt
      (EmuOp.run w (Emu.new rows' cols' scrollback')
        (before ++ [.resize rows cols, .feed (ascii "\x1bc\x1b7" ++ after)])).vt := by
  obtain ⟨_, _, ok⟩ := EmuOp.run_ok (Emu.Ok.new rows'.pos cols'.pos scrollback') w before
  have resized : (EmuOp.apply w _ (.resize rows cols)).Ok rows cols := ⟨ok.vt.resize rows.pos cols.pos, ok.osc⟩
  rw [EmuOp.run, List.foldl_append]
  show SameScreen _ (Emu.feed w _ (_ ++ after)).vt
  rw [Emu.feed_append]
  exact ((reset_twin w resized scrollback).feed w after).vt.sameScreen

end Lumimux.Vt
