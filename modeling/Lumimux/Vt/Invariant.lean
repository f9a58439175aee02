import Lumimux.Vt.Emulator
import Lumimux.Vt.StateInvariant

/-!
# The structural invariant of the emulator

The dispatch of `vt_ops.c` keeps the invariant of a state, and so does every history of an emulator.
-/

namespace Lumimux.Vt
open Utf8 List

namespace VtState.Ok

variable {rows cols : Nat} {st : VtState}

section
variable (h : st.Ok rows cols)
include h

theorem csiEraseDisplay (mode : Nat) : (st.csiEraseDisplay mode).Ok rows cols := by
  unfold VtState.csiEraseDisplay
  split
  · exact (h.eraseRange _ _ _).clearRows _ _ _
  · exact (h.clearRows _ _ _).eraseRange _ _ _
  · exact h.clearRows _ _ _
  · exact h.clearRows _ _ _
  · exact h

theorem csiEraseLine (mode : Nat) : (st.csiEraseLine mode).Ok rows cols := by
  unfold VtState.csiEraseLine
  split
  · exact h.eraseRange _ _ _
  · exact h.eraseRange _ _ _
  · exact h.eraseRange _ _ _
  · exact h

theorem scrollFromCursor (count : Int) : (st.scrollFromCursor count).Ok rows cols := by
  unfold VtState.scrollFromCursor
  split
  · exact h
  · exact h.scroll _ _ _ _

theorem csiInsertChars (count : Nat) : (st.csiInsertChars count).Ok rows cols :=
  h.editRow fun _ ok => (ok.shiftRight _ _).eraseRange _ _ _

theorem csiDeleteChars (count : Nat) : (st.csiDeleteChars count).Ok rows cols :=
  h.editRow fun _ ok => (ok.shiftLeft _ _).eraseRange _ _ _

theorem csiEraseChars (count : Nat) : (st.csiEraseChars count).Ok rows cols :=
  h.eraseRange _ _ _

theorem cursorUp (n : Nat) : (st.cursorUp n).Ok rows cols := by
  have := h.rows_pos
  have := h.cursorRow_lt
  refine h.setRow ?_
  split <;> omega

theorem cursorDown (n : Nat) : (st.cursorDown n).Ok rows cols := by
  have := h.rows_eq
  have := h.rows_pos
  have := h.cursorRow_nonneg
  refine h.setRow ?_
  split <;> omega

theorem cursorForward (n : Nat) : (st.cursorForward n).Ok rows cols := by
  have := h.cols_eq
  have := h.cols_pos
  have := h.cursorCol_nonneg
  refine h.setCol ?_
  split <;> omega

theorem cursorBack (n : Nat) : (st.cursorBack n).Ok rows cols := by
  have := h.cursorCol_le
  refine h.setCol ?_
  split <;> omega

theorem setScrollRegion (n m : Nat) : (st.setScrollRegion n m).Ok rows cols := by
  have eq := h.rows_eq
  unfold VtState.setScrollRegion
  extract_lets n' m' st'
  have region : st'.Ok rows cols := by
    have bound : m' ≤ rows := by
      show (if m > st.buf.rows then st.buf.rows else m) ≤ rows
      split <;> omega
    have low : 1 ≤ n' := by
      show 1 ≤ (if n < 1 then 1 else n)
      split <;> omega
    show VtState.Ok rows cols (if n' < m' then { st with scrollTop := (n' : Int) - 1, scrollBot := m' } else st)
    split
    · exact
        { h with
          scrollTop_nonneg := show (0 : Int) ≤ (n' : Int) - 1 by omega
          scrollTop_lt := show (n' : Int) - 1 < (m' : Int) by omega
          scrollBot_le := show (m' : Int) ≤ rows by omega }
    · exact h
  have := h.rows_pos
  exact region.setCursor (by omega) (by omega)

theorem decset (n : Nat) : (st.decset n).Ok rows cols := by
  have top := h.scrollTop_nonneg
  have bot := h.scrollTop_lt
  have fits := h.scrollBot_le
  have origin : VtState.Ok rows cols { st with modes.origin := true } := { h with }
  unfold VtState.decset
  split
  all_goals first
    | exact h.altscreenEnter
    | exact { h with }
    | exact origin.setCursor (by omega) (by omega)

theorem decrst (n : Nat) : (st.decrst n).Ok rows cols := by
  have := h.rows_pos
  have origin : VtState.Ok rows cols { st with modes.origin := false } := { h with }
  unfold VtState.decrst
  split
  all_goals first
    | exact h.altscreenLeave
    | exact { h with }
    | exact origin.setCursor (by omega) (by omega)

theorem opCsiPrivate (params : List Int) (final : UInt8) : (st.opCsiPrivate params final).Ok rows cols := by
  unfold VtState.opCsiPrivate
  extract_lets n
  split
  · exact h.decset n
  · exact h.decrst n
  · exact h.reply _
  · split
    · exact h.reply _
    · exact h
  · exact h

theorem deviceStatus (n : Nat) : (st.deviceStatus n).Ok rows cols := by
  unfold VtState.deviceStatus
  split
  · exact h.reply _
  · split
    · exact h.reply _
    · exact h

theorem opCsiPlain (params : List Int) (final : UInt8) : (st.opCsiPlain params final).Ok rows cols := by
  unfold VtState.opCsiPlain
  extract_lets n
  split
  · exact h.cursorUp n
  · exact h.cursorDown n
  · exact h.cursorForward n
  · exact h.cursorBack n
  · exact (h.cursorDown n).setCol (by omega)
  · exact (h.cursorUp n).setCol (by omega)
  · exact h.cursorClamp _ _
  · exact h.cursorClamp _ _
  · exact h.cursorClamp _ _
  · exact h.csiEraseDisplay _
  · exact h.csiEraseLine _
  · exact h.scrollFromCursor _
  · exact h.scrollFromCursor _
  · exact h.csiDeleteChars n
  · exact h.scroll _ _ _ _
  · exact h.scroll _ _ _ _
  · exact h.csiEraseChars n
  · exact h.csiInsertChars n
  · split
    · exact h.reply _
    · exact h
  · exact h.deviceStatus _
  · exact h.cursorClamp _ _
  · split
    · exact { h with }
    · exact h
  · split
    · exact { h with }
    · exact h
  · exact { h with }
  · exact h.setScrollRegion n _
  · exact h.cursorSave
  · exact h.cursorRestore
  · split
    · exact h.tabWrite _ _
    · split
      · exact h.tabClearAll
      · exact h
  · split
    · exact h.titlePush
    · split
      · exact h.titlePop
      · exact h
  · exact h.setCol (tabPrev_iterate_mem n h.cursorCol_nonneg h.cursorCol_le)
  · exact h

theorem opCsi (params : List Int) (intermed final : UInt8) : (st.opCsi params intermed final).Ok rows cols := by
  unfold VtState.opCsi
  extract_lets n
  split_ifs with private_ shape small push pop set keys four other
  · exact h.opCsiPrivate params final
  · exact { h with cursorShape_le := small }
  · exact h
  · exact h.kittyPush _
  · exact h.kittyPop _
  · exact h.kittySet _ _
  · exact { h with }
  · exact h
  · exact h
  · exact h.opCsiPlain params final

theorem fullReset : st.fullReset.Ok rows cols := by
  have left := h.altscreenLeave
  have plain : st.altscreenLeave.modes.altscreen = false := by
    unfold VtState.altscreenLeave
    split
    · rename_i off
      simpa using off
    · rfl
  have active := left.active_eq
  have reset : VtState.Ok rows cols
      { st.altscreenLeave with
        modes := .initial
        style := {}
        charset := 0
        g0Set := 0
        g1Set := 0
        scrollTop := 0
        scrollBot := st.altscreenLeave.buf.rows
        cursorRow := 0
        cursorCol := 0
        kittyKbdFlags := 0
        kittyKbdStack := []
        modifyOtherKeys := 0 } :=
    { left with
      cursorRow_nonneg := le_refl _
      cursorRow_lt := Int.natCast_pos.mpr h.rows_pos
      cursorCol_nonneg := le_refl _
      cursorCol_le := Int.natCast_nonneg _
      scrollTop_nonneg := le_refl _
      scrollTop_lt := by
        rw [left.rows_eq]
        exact Int.natCast_pos.mpr h.rows_pos
      scrollBot_le := by rw [left.rows_eq]
      alt_exists := left.alt_exists.trans plain
      active_eq := by
        rw [plain] at active
        exact active
      kitty_depth := Nat.zero_le _
      kitty_top := fun nonempty => absurd rfl nonempty }
  exact reset.tabReset.csiEraseDisplay 2

theorem opEsc (intermed final : UInt8) : (st.opEsc intermed final).Ok rows cols := by
  unfold VtState.opEsc
  split
  · split
    · exact h.cursorSave
    · exact h.cursorRestore
    · exact h.index
    · exact (h.setCol (by omega)).index
    · exact h.tabWrite _ _
    · exact h.reverseIndex
    · exact { h with }
    · exact { h with }
    · exact h.fullReset
    · exact h
  · split_ifs
    all_goals exact { h with }

theorem oscColorReply (num : Nat) : (st.oscColorReply num).Ok rows cols := by
  unfold VtState.oscColorReply
  split
  · exact h
  · extract_lets rep
    split
    · exact h.reply _
    · exact h

theorem opOsc {data} (inert : Inert data) : (st.opOsc data).Ok rows cols := by
  have titled : VtState.Ok rows cols { st with title := some ((data.dropWhile (· != 0x3B)).drop 1) } := by
    refine { h with title_inert := fun t found => ?_ }
    cases found
    exact fun b member => inert b ((dropWhile_suffix _).mem (mem_of_mem_drop member))
  unfold VtState.opOsc
  extract_lets text
  split
  · split
    · exact titled
    · exact titled
    · split
      · exact h.oscColorReply 10
      · exact h
    · split
      · exact h.oscColorReply 11
      · exact h
    · exact h
  · exact h

theorem opExecute (c : UInt8) : (st.opExecute c).Ok rows cols := by
  have high := h.cursorCol_le
  unfold VtState.opExecute
  split
  · split
    · exact h.setCol (by omega)
    · exact h
  · exact h.setCol (h.tabNext_mem _)
  · exact h.index
  · exact h.index
  · exact h.index
  · exact h.setCol (by omega)
  · exact { h with }
  · exact { h with }
  · exact h

theorem apply {action} (inert : ∀ data, action = .osc data → Inert data) : (st.apply action).Ok rows cols := by
  cases action with
  | print cp width => exact h.opPrint cp width
  | execute c => exact h.opExecute c
  | csi params intermed final => exact h.opCsi params intermed final
  | esc intermed final => exact h.opEsc intermed final
  | osc data => exact h.opOsc (inert data rfl)
  | dcs introducer data => exact h

theorem applyAll {actions : List VtAction} (inert : ∀ data, .osc data ∈ actions → Inert data) :
    (actions.foldl VtState.apply st).Ok rows cols :=
  foldlRecOn actions VtState.apply h fun _ ok _ member => ok.apply fun data same => inert data (same ▸ member)

end

end VtState.Ok

variable {p : VtParse} {rows cols : Nat} {e : Emu}

inductive Emitted (w : WidthTable) (osc : Bytes) : VtAction → Prop
  | print (cp : Nat) : Emitted w osc (emitPrint w cp)
  | execute (c : UInt8) : Emitted w osc (.execute c)
  | csi (p : VtParse) (final : UInt8) : Emitted w osc (emitCsi p final)
  | esc (intermed final : UInt8) : Emitted w osc (.esc intermed final)
  | osc (n : Nat) : Emitted w osc (.osc (osc.take n))
  | dcs (introducer : UInt8) (data : Bytes) : Emitted w osc (.dcs introducer data)

inductive OscStep (data : Bytes) (c : UInt8) : Bytes → Prop
  | cut (n : Nat) : OscStep data c (data.take n)
  | grown (plain : c ≠ 0x1B ∧ c ≠ 0x07) : OscStep data c (data ++ [c])

theorem OscStep.same (data : Bytes) (c : UInt8) : OscStep data c data := by
  have whole := @OscStep.cut data c data.length
  rwa [take_length] at whole

structure Parsed (w : WidthTable) (p : VtParse) (c : UInt8) (result : VtParse × List VtAction) : Prop where
  osc : OscStep p.osc.data c result.1.osc.data
  actions : ∀ a ∈ result.2, Emitted w p.osc.data a

theorem Parsed.silent {w c p'} (osc : OscStep p.osc.data c p'.osc.data) : Parsed w p c (p', []) :=
  ⟨osc, forall_mem_nil _⟩

theorem Parsed.one {w c p' a} (osc : OscStep p.osc.data c p'.osc.data) (emitted : Emitted w p.osc.data a) :
    Parsed w p c (p', [a]) :=
  ⟨osc, forall_mem_singleton.mpr emitted⟩

section
variable (w : WidthTable) (p : VtParse) (c : UInt8)

theorem groundByte_parsed : Parsed w p c (groundByte w p c) := by
  unfold groundByte
  split_ifs
  · exact .one (.same _ _) (.execute c)
  · exact .silent (.same _ _)
  · exact .one (.same _ _) (.print _)
  · split
    · exact .silent (.same _ _)
    · exact .one (.same _ _) (.print _)

theorem processGround_parsed : Parsed w p c (processGround w p c) := by
  unfold processGround
  split
  · split
    · extract_lets buf
      split
      · exact .one (.same _ _) (.print _)
      · exact .silent (.same _ _)
    · obtain ⟨osc, actions⟩ := groundByte_parsed w (utf8Cancel p) c
      exact ⟨osc, forall_mem_cons.mpr ⟨.print _, actions⟩⟩
  · exact groundByte_parsed w p c

theorem processEsc_parsed : Parsed w p c (processEsc p) := by
  unfold processEsc
  split
  rename_i p' actions result
  split at result
  · cases result
    refine ⟨.same _ _, fun a member => ?_⟩
    split at member
    · cases mem_singleton.mp member
      exact .dcs _ _
    · cases member
  · cases result
    exact .one (.cut _) (.osc _)
  · cases result
    exact .silent (.same _ _)

/-- What a byte can do to the OSC buffer, and what it can emit. -/
theorem processByte_parsed : Parsed w p c (processByte w p c) := by
  unfold processByte
  split
  · exact processEsc_parsed w p c
  · rename_i notEsc
    split
    · exact .one (.same _ _) (.execute c)
    · split
      · exact processGround_parsed w p c
      · unfold processEscape
        split_ifs
        all_goals first | exact .silent (.same _ _) | exact .silent (.cut 0) | exact .one (.same _ _) (.esc _ _)
      · unfold processEscapeIntermed
        split_ifs
        all_goals first | exact .silent (.same _ _) | exact .one (.same _ _) (.esc _ _)
      · unfold processCsiEntry
        split_ifs
        all_goals first | exact .silent (.same _ _) | exact .one (.same _ _) (.csi _ c)
      · unfold processCsiParam
        split_ifs
        all_goals first | exact .silent (.same _ _) | exact .one (.same _ _) (.csi _ c)
      · unfold processCsiIntermed
        split_ifs
        all_goals first | exact .silent (.same _ _) | exact .one (.same _ _) (.csi _ c)
      · unfold processCsiIgnore
        split_ifs
        all_goals exact .silent (.same _ _)
      · exact .silent (.same _ _)
      · unfold processOsc
        split
        · exact .one (.cut _) (.osc _)
        · rename_i notBell
          refine .silent ?_
          show OscStep _ _ (oscAppend p.osc c).data
          unfold oscAppend StrBuf.append
          split
          · exact .same _ _
          · exact .grown ⟨notEsc, notBell⟩

end

theorem processByte_inert (w : WidthTable) (h : Inert p.osc.data) (c : UInt8) :
    Inert (processByte w p c).1.osc.data ∧ ∀ data, .osc data ∈ (processByte w p c).2 → Inert data := by
  obtain ⟨osc, actions⟩ := processByte_parsed w p c
  have cut : ∀ n, Inert (p.osc.data.take n) := fun n b member => h b (mem_of_mem_take member)
  constructor
  · generalize (processByte w p c).1.osc.data = after at osc
    cases osc with
    | cut n => exact cut n
    | grown plain => exact forall_mem_append.mpr ⟨h, forall_mem_singleton.mpr plain⟩
  · intro data member
    have emitted := actions _ member
    cases emitted with
    | osc n => exact cut n

structure Emu.Ok (rows cols : Nat) (e : Emu) : Prop where
  vt : e.vt.Ok rows cols
  osc : Inert e.parse.osc.data

theorem Emu.Ok.new (hr : 0 < rows) (hc : 0 < cols) (scrollback : Int) : (Emu.new rows cols scrollback).Ok rows cols :=
  ⟨VtState.Ok.new hr hc scrollback, fun b member => by cases member⟩

section
variable (h : e.Ok rows cols) (w : WidthTable)
include h

theorem Emu.Ok.step (b : UInt8) : (e.step w b).Ok rows cols := by
  obtain ⟨osc, actions⟩ := processByte_inert w h.osc b
  exact ⟨h.vt.applyAll actions, osc⟩

theorem Emu.Ok.feed (bytes : Bytes) : (e.feed w bytes).Ok rows cols :=
  foldlRecOn bytes (Emu.step w) h fun _ ok b _ => ok.step w b

theorem EmuOp.apply_ok (op : EmuOp) : ∃ rows' cols', (op.apply w e).Ok rows' cols' := by
  cases op with
  | feed bytes => exact ⟨rows, cols, h.feed w bytes⟩
  | resize newRows newCols => exact ⟨newRows, newCols, h.vt.resize newRows.pos newCols.pos, h.osc⟩
  | altscreenEnter => exact ⟨rows, cols, h.vt.altscreenEnter, h.osc⟩
  | altscreenLeave => exact ⟨rows, cols, h.vt.altscreenLeave, h.osc⟩
  | parseReset => exact ⟨rows, cols, h.vt, fun b member => by cases member⟩

end

/-- A state is well formed at its own size. -/
def VtState.Invariant (st : VtState) : Prop := st.Ok st.buf.rows st.buf.cols

theorem VtState.Ok.invariant {st : VtState} (h : st.Ok rows cols) : st.Invariant := by
  rw [VtState.Invariant, h.rows_eq, h.cols_eq]
  exact h

theorem EmuOp.run_ok (h : e.Ok rows cols) (w : WidthTable) (ops : List EmuOp) :
    ∃ rows' cols', (EmuOp.run w e ops).Ok rows' cols' :=
  foldlRecOn (motive := fun e' => ∃ rows' cols', e'.Ok rows' cols') ops (EmuOp.apply w) ⟨rows, cols, h⟩
    fun _ ⟨_, _, ok⟩ op _ => EmuOp.apply_ok ok w op

/-- **Every history of an emulator keeps the structural invariant**: bytes of any kind, resizes,
alternate-screen switches and parser resets, in any order, from any initial size. -/
theorem EmuOp.run_invariant (w : WidthTable) (rows cols : ℕ+) (scrollback : Int) (ops : List EmuOp) :
    (EmuOp.run w (Emu.new rows cols scrollback) ops).vt.Invariant := by
  obtain ⟨rows', cols', ok⟩ := EmuOp.run_ok (Emu.Ok.new rows.pos cols.pos scrollback) w ops
  exact ok.vt.invariant

end Lumimux.Vt
