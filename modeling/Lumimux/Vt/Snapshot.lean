import Lumimux.Vt.Invariant
import Lumimux.Vt.Replay

/-!
# Snapshot fidelity of the dump

The prologue clears a fresh terminal, the title is set, the rows are painted, the epilogue restores the cursor and the
keyboard state (`feeds_dump`).
-/

namespace Lumimux.Vt
open Lib Utf8 List

variable {w : WidthTable}

def receiver (rows cols : Nat) (scrollback : Int) (alt : Bool) (title : Option Bytes) : VtState :=
  { VtState.new rows cols scrollback with
    primary := (VtState.new rows cols scrollback).primary.clearRows 0 rows .default
    alt := if alt then some ((VtBuf.new rows cols 0).clearRows 0 rows .default) else none
    active := if alt then .alt else .primary
    modes := { Modes.initial with altscreen := alt }
    title := title }

theorem emits_clear : Emits w (ascii "\x1b[2J") [.csi [2] 0 0x4A] :=
  emits_csi 2 [] (by decide) (by decide) (f := 0x4A) (by decide)

theorem emits_mode {n : Nat} (bound : n < 655350) {f : UInt8} (final : Final f) :
    Emits w (ascii "\x1b[?" ++ decimal n ++ [f]) [.csi [(n : Int)] 0x3F f] := by
  have text : ascii "\x1b[?" ++ decimal n ++ [f] = ascii "\x1b[" ++ ([0x3F] ++ (decimal n ++ separated [] ++ [f])) := by
    rw [show ascii "\x1b[?" = ascii "\x1b[" ++ [0x3F] by decide]
    simp [separated]
  have emits := emits_private (w := w) (m := 0x3F) (by decide) n [] (by simp [vtMaxParams]) final
  rw [map_readBack (by simpa using bound)] at emits
  rw [text]
  exact emits

theorem feeds_prologue {rows cols : Nat} (hr : 0 < rows) (hc : 0 < cols) (scrollback : Int) (alt : Bool) :
    Feeds w (VtState.new rows cols scrollback)
      (ascii "\x1b[0m\x1b[2J\x1b[H" ++ if alt then ascii "\x1b[?1049h" else ascii "\x1b[?1049l")
      (receiver rows cols scrollback alt none) := by
  have cleared : Feeds w (VtState.new rows cols scrollback) (ascii "\x1b[0m\x1b[2J\x1b[H")
      { VtState.new rows cols scrollback with
        primary := (VtState.new rows cols scrollback).primary.clearRows 0 rows .default } := by
    refine ⟨[.csi [0] 0 0x6D, .csi [2] 0 0x4A, .csi [-1] 0 0x48], ?_, by simp [VtAction.Graphics], ?_⟩
    · rw [show ascii "\x1b[0m\x1b[2J\x1b[H" = ascii "\x1b[0m" ++ (ascii "\x1b[2J" ++ ascii "\x1b[H") by decide]
      exact emits_reset.append (emits_clear.append emits_home)
    · -- the home position is inside the screen, so clamping keeps it
      have row : VtState.clamp 0 rows = 0 := VtState.clamp_of_mem (le_refl _) (Int.natCast_pos.mpr hr)
      have col : VtState.clamp 0 cols = 0 := VtState.clamp_of_mem (le_refl _) (Int.natCast_pos.mpr hc)
      exact congrArg₂ (fun a b : Int =>
        { VtState.new rows cols scrollback with
          primary := (VtState.new rows cols scrollback).primary.clearRows 0 rows .default
          cursorRow := a
          cursorCol := b }) row col
  refine cleared.append ?_
  cases alt with
  | true =>
    have selected := emits_mode (w := w) (n := 1049) (by decide) (f := 0x68) (by decide)
    exact ⟨_, selected, by simp [VtAction.Graphics], rfl⟩
  | false =>
    have selected := emits_mode (w := w) (n := 1049) (by decide) (f := 0x6C) (by decide)
    exact ⟨_, selected, by simp [VtAction.Graphics], rfl⟩

def PlainText (t : Bytes) : Prop :=
  ∃ runes : List Nat, t = runes.flatMap utf8Encode ∧ ∀ r ∈ runes, Scalar r ∧ 0x20 ≤ r ∧ r ≠ runeError

def titleBytes (t : Bytes) : Bytes := ascii "\x1b]2;" ++ t ++ ascii "\x1b\\"

theorem opOsc_title (st : VtState) (t : Bytes) (n : Nat) :
    ∃ title, st.opOsc ((0x32 :: 0x3B :: t).take n) = { st with title := title } := by
  match n with
  | 0 => exact ⟨st.title, rfl⟩
  | 1 => exact ⟨st.title, rfl⟩
  | n + 2 => exact ⟨some (t.take n), rfl⟩

theorem feeds_title {title} (inert : ∀ t, title = some t → ∀ b ∈ t, b ≠ 0x1B ∧ b ≠ 0x07) (rows cols : Nat)
    (scrollback : Int) (alt : Bool) :
    ∃ title', Feeds w (receiver rows cols scrollback alt none) (dumpTitle title).flatten
        (receiver rows cols scrollback alt title') ∧
      (PlainText (title.getD []) → (titleBytes (title.getD [])).length < 256 → title'.getD [] = title.getD []) := by
  cases title with
  | none => exact ⟨none, Feeds.nil _, fun _ _ => rfl⟩
  | some t =>
    simp only [dumpTitle]
    split
    · rename_i emitted
      have data : ∀ b ∈ (0x32 : UInt8) :: 0x3B :: t, b ≠ 0x1B ∧ b ≠ 0x07 := by
        intro b member
        rcases mem_cons.mp member with rfl | member
        · decide
        · rcases mem_cons.mp member with rfl | member
          · decide
          · exact inert t rfl b member
      have room : ((0x32 : UInt8) :: 0x3B :: t).length < vtOscMax := by
        have := emitted.2
        simp only [length_append, length_cons, vtOscMax] at this ⊢
        omega
      have text : ascii "\x1b]2;" ++ t ++ ascii "\x1b\\" = ascii "\x1b]" ++ ((0x32 :: 0x3B :: t) ++ ascii "\x1b\\") := by
        rw [show ascii "\x1b]2;" = ascii "\x1b]" ++ [0x32, 0x3B] by decide]
        simp
      have emits := emits_osc (w := w) data room
      rw [← text] at emits
      rw [flatten_singleton]
      by_cases plain : PlainText t
      · obtain ⟨runes, rfl, all⟩ := plain
        -- the command number and its separator are runes of the string like any other
        have whole := @utf8Trunc_encode (0x32 :: 0x3B :: runes) (by
          intro r member
          rcases mem_cons.mp member with rfl | member
          · decide
          · rcases mem_cons.mp member with rfl | member
            · decide
            · exact all r member)
        rw [show (0x32 :: 0x3B :: runes).flatMap utf8Encode = 0x32 :: 0x3B :: runes.flatMap utf8Encode from rfl] at whole
        rw [whole, take_length] at emits
        exact ⟨some (runes.flatMap utf8Encode), ⟨_, emits, by simp [VtAction.Graphics], rfl⟩, fun _ _ => rfl⟩
      · obtain ⟨title', set⟩ := opOsc_title (receiver rows cols scrollback alt none) t
          (utf8Trunc ((0x32 : UInt8) :: 0x3B :: t) (((0x32 : UInt8) :: 0x3B :: t).length + 1))
        exact ⟨title', ⟨_, emits, by simp [VtAction.Graphics], set⟩, fun plain' _ => absurd plain' plain⟩
    · rename_i skipped
      refine ⟨none, Feeds.nil _, fun _ fits => ?_⟩
      -- a title that fits and is not emitted is empty
      by_contra nonempty
      exact skipped ⟨fun empty => nonempty empty.symm, fits⟩

def restored (st client : VtState) : VtState :=
  { client with
    modes.cursorVis := st.modes.cursorVis
    cursorShape := st.cursorShape
    kittyKbdFlags := readBack st.kittyKbdFlags
    modifyOtherKeys := readBack st.modifyOtherKeys }

theorem emits_kitty (n : Nat) : Emits w (ascii "\x1b[=" ++ decimal n ++ ascii "u") [.csi [(readBack n : Int)] 0x3D 0x75] := by
  have text : ascii "\x1b[=" ++ decimal n ++ ascii "u" =
      ascii "\x1b[" ++ ([0x3D] ++ (decimal n ++ separated [] ++ [0x75])) := by
    rw [show ascii "\x1b[=" = ascii "\x1b[" ++ [0x3D] by decide, show ascii "u" = [0x75] by decide]
    simp [separated]
  rw [text]
  exact emits_private (by decide) n [] (by simp [vtMaxParams]) (by decide)

theorem emits_modifyOtherKeys (n : Nat) :
    Emits w (ascii "\x1b[>4;" ++ decimal n ++ ascii "m") [.csi [4, (readBack n : Int)] 0x3E 0x6D] := by
  have text : ascii "\x1b[>4;" ++ decimal n ++ ascii "m" =
      ascii "\x1b[" ++ ([0x3E] ++ (decimal 4 ++ separated [n] ++ [0x6D])) := by
    rw [show ascii "\x1b[>4;" = ascii "\x1b[" ++ ([0x3E] ++ (decimal 4 ++ [0x3B])) by decide,
      show ascii "m" = [0x6D] by decide]
    simp [separated]
  rw [text]
  exact emits_private (by decide) 4 [n] (by simp [vtMaxParams]) (by decide)

section Epilogue

variable (st : VtState) (client : VtState)

theorem feeds_visible : Feeds w client (if st.modes.cursorVis then ascii "\x1b[?25h" else ascii "\x1b[?25l")
      { client with modes.cursorVis := st.modes.cursorVis } := by
  split
  · rename_i on
    rw [on]
    exact ⟨_, emits_mode (n := 25) (by decide) (f := 0x68) (by decide), by simp [VtAction.Graphics], rfl⟩
  · rename_i off
    rw [Bool.not_eq_true _ |>.mp off]
    exact ⟨_, emits_mode (n := 25) (by decide) (f := 0x6C) (by decide), by simp [VtAction.Graphics], rfl⟩

theorem feeds_shape (small : st.cursorShape ≤ 6) (fresh : client.cursorShape = 0) :
    Feeds w client (if st.cursorShape > 0 then [ascii "\x1b[" ++ decimal st.cursorShape ++ ascii " q"] else []).flatten
      { client with cursorShape := st.cursorShape } := by
  split
  · refine ⟨_, by rw [flatten_singleton]; exact emits_shape (by omega), by simp [VtAction.Graphics], ?_⟩
    simp [VtState.apply, VtState.opCsi, paramOr, small]
  · rename_i zero
    rw [show st.cursorShape = 0 by omega, ← fresh]
    exact Feeds.nil client

theorem feeds_kitty (fresh : client.kittyKbdStack = []) :
    Feeds w client (ascii "\x1b[=" ++ decimal st.kittyKbdFlags ++ ascii "u")
      { client with kittyKbdFlags := readBack st.kittyKbdFlags } := by
  refine ⟨_, emits_kitty st.kittyKbdFlags, by simp [VtAction.Graphics], ?_⟩
  simp [VtState.apply, VtState.opCsi, paramOr, VtState.kittySet, fresh]

theorem feeds_keys (fresh : client.modifyOtherKeys = 0) : Feeds w client
      (if st.modifyOtherKeys ≠ 0 then [ascii "\x1b[>4;" ++ decimal st.modifyOtherKeys ++ ascii "m"] else []).flatten
      { client with modifyOtherKeys := readBack st.modifyOtherKeys } := by
  split
  · refine ⟨_, by rw [flatten_singleton]; exact emits_modifyOtherKeys st.modifyOtherKeys, by simp [VtAction.Graphics], ?_⟩
    simp [VtState.apply, VtState.opCsi, paramOr]
  · rename_i zero
    rw [not_not.mp zero, show readBack 0 = 0 by decide, ← fresh]
    exact Feeds.nil client

end Epilogue

theorem feeds_epilogue {rows cols row col : Nat} {scrollback : Int} {alt : Bool} {title : Option Bytes}
    {cells : List (List Cell)} {style : Style} {st client : VtState}
    (h : Canvas (receiver rows cols scrollback alt title) rows cols cells row col style client)
    (ok : st.Ok rows cols) (settled : st.cursorCol < cols) (small : rows < 655350) (narrow : st.cursorCol + 1 < 655350) :
    ∃ client', Canvas (receiver rows cols scrollback alt title) rows cols cells st.cursorRow.toNat st.cursorCol.toNat {}
        client' ∧ Feeds w client (dumpTail st).flatten (restored st client') := by
  have rowLow := ok.cursorRow_nonneg
  have rowHigh := ok.cursorRow_lt
  have colLow := ok.cursorCol_nonneg
  have paintable : Paintable (receiver rows cols scrollback alt title) := ⟨rfl, rfl, rfl, rfl, rfl⟩
  have moved := (h.sgr [0]).cup paintable (r := st.cursorRow.toNat) (c := st.cursorCol.toNat) (by omega) (by omega)
  have row' : (st.cursorRow + 1).toNat = st.cursorRow.toNat + 1 := by omega
  have col' : (st.cursorCol + 1).toNat = st.cursorCol.toNat + 1 := by omega
  have position : Feeds w client (ascii "\x1b[0m" ++ cupBytes (st.cursorRow.toNat + 1) (st.cursorCol.toNat + 1)) _ :=
    (emits_reset.feeds id client).append ((emits_cup (by omega) (by omega)).feeds id _)
  refine ⟨_, moved, ?_⟩
  have text : (dumpTail st).flatten =
      (ascii "\x1b[0m" ++ cupBytes (st.cursorRow.toNat + 1) (st.cursorCol.toNat + 1))
      ++ ((if st.modes.cursorVis then ascii "\x1b[?25h" else ascii "\x1b[?25l")
      ++ ((if st.cursorShape > 0 then [ascii "\x1b[" ++ decimal st.cursorShape ++ ascii " q"] else []).flatten
      ++ ((ascii "\x1b[=" ++ decimal st.kittyKbdFlags ++ ascii "u")
      ++ (if st.modifyOtherKeys ≠ 0 then [ascii "\x1b[>4;" ++ decimal st.modifyOtherKeys ++ ascii "m"] else []).flatten))) := by
    rw [dumpTail, row', col']
    simp only [flatten_append, flatten_cons, flatten_nil, append_assoc, append_nil]
  rw [text]
  refine position.append ((feeds_visible st _).append ((feeds_shape st _ ok.cursorShape_le ?_).append
    ((feeds_kitty st _ ?_).append (feeds_keys st _ ?_))))
  · exact (congrArg VtState.cursorShape moved.frame :)
  · exact (congrArg VtState.kittyKbdStack moved.frame :)
  · exact (congrArg VtState.modifyOtherKeys moved.frame :)

/-- A screen a dump can carry: printable characters in whole wide pairs, styles within the sixteen
parameters, no pending wrap, and positions the receiver's parser does not clamp. -/
structure Drawable (w : WidthTable) (st : VtState) : Prop where
  rows : ∀ row ∈ st.screen, WideRow w row
  styles : ∀ row ∈ st.screen, ∀ c ∈ row, Dumpable c
  settled : st.cursorCol < st.buf.cols
  rows_lt : st.buf.rows < 655350
  col_lt : st.cursorCol + 1 < 655350

/-- A drawable screen with keyboard flags that the parser does not clamp. -/
structure Replayable (w : WidthTable) (st : VtState) : Prop extends Drawable w st where
  kitty_lt : st.kittyKbdFlags < 655350
  keys_lt : st.modifyOtherKeys < 655350

/-- The same cells, cursor and screen. -/
structure SameScreen (st client : VtState) : Prop where
  screen : client.screen = st.screen
  cursorRow : client.cursorRow = st.cursorRow
  cursorCol : client.cursorCol = st.cursorCol
  altscreen : client.modes.altscreen = st.modes.altscreen

structure SameDisplay (st client : VtState) : Prop extends SameScreen st client where
  cursorVis : client.modes.cursorVis = st.modes.cursorVis
  cursorShape : client.cursorShape = st.cursorShape
  title : PlainText (st.title.getD []) → (titleBytes (st.title.getD [])).length < 256 →
    client.title.getD [] = st.title.getD []

/-- The same display and keyboard state. -/
structure SameSnapshot (st client : VtState) : Prop extends SameDisplay st client where
  kittyKbdFlags : client.kittyKbdFlags = st.kittyKbdFlags
  modifyOtherKeys : client.modifyOtherKeys = st.modifyOtherKeys

structure Received (st client : VtState) : Prop extends SameDisplay st client where
  kittyKbdFlags : client.kittyKbdFlags = readBack st.kittyKbdFlags
  modifyOtherKeys : client.modifyOtherKeys = readBack st.modifyOtherKeys

/-- What a dump does not carry is at its initial value. -/
structure FreshHidden (rows cols : Nat) (st : VtState) : Prop where
  style : st.style = {}
  saved : st.saved = {}
  scrollTop : st.scrollTop = 0
  scrollBot : st.scrollBot = rows
  autowrap : st.modes.autowrap = true
  origin : st.modes.origin = false
  insert : st.modes.insert = false
  charset : st.charset = 0
  g0Set : st.g0Set = 0
  g1Set : st.g1Set = 0
  tabstops : st.tabstops = defaultTabstops cols
  primary : st.modes.altscreen = true → st.primary.grid.map Row.cells = replicate rows (replicate cols Cell.clear)

theorem cells_clearRows {rows cols : Nat} {b : VtBuf} (ok : BufOk rows cols b) :
    (b.clearRows 0 rows .default).grid.map Row.cells = replicate rows (replicate cols Cell.clear) := by
  refine ext_getElem (by simp [VtBuf.clearRows, ok.grid_length]) fun i low high => ?_
  have inside : i < b.grid.length := by simpa [VtBuf.clearRows] using low
  have width : b.grid[i].cells.length = cols := ok.grid_rows _ (getElem_mem inside)
  simp only [length_replicate] at high
  simp [VtBuf.clearRows, high, width]

theorem canvas_receiver (rows cols : Nat) (scrollback : Int) (alt : Bool) (title : Option Bytes) :
    Canvas (receiver rows cols scrollback alt title) rows cols (replicate rows (replicate cols Cell.clear))
      0 0 {} (receiver rows cols scrollback alt title) := by
  refine ⟨rfl, ?_, ?_, rfl, rfl, rfl⟩
  · cases alt <;> exact (bufOk_new rows cols _).clearRows _ _ _
  · cases alt <;> exact cells_clearRows (bufOk_new rows cols _)

theorem feeds_dump {rows cols : Nat} {st : VtState} (ok : st.Ok rows cols) (h : Drawable w st) (scrollback : Int) :
    ∃ client, Feeds w (VtState.new rows cols scrollback) (vtStateDump st).flatten client ∧
      Received st client ∧ FreshHidden rows cols client := by
  have settled := h.settled
  have rowsLt := h.rows_lt
  rw [ok.cols_eq] at settled
  rw [ok.rows_eq] at rowsLt
  have paintable : ∀ title, Paintable (receiver rows cols scrollback st.modes.altscreen title) :=
    fun _ => ⟨rfl, rfl, rfl, rfl, rfl⟩
  obtain ⟨title, titled, sameTitle⟩ := feeds_title (w := w) ok.title_inert rows cols scrollback st.modes.altscreen
  have glyphs : ∀ r ∈ st.buf.grid, r.cells.length = cols ∧ ∃ gs : List (Glyph w), r.cells = gs.flatMap Glyph.cells :=
    fun r member =>
      ⟨ok.buf.grid_rows r member,
        (h.rows r.cells (mem_map_of_mem member)).exists_glyphs (h.styles r.cells (mem_map_of_mem member))⟩
  have blank : Canvas (receiver rows cols scrollback st.modes.altscreen title) rows cols
      ([] ++ replicate rows (replicate cols Cell.clear)) 0 0 {} _ :=
    canvas_receiver rows cols scrollback st.modes.altscreen title
  have quiet : false = false → ({} : Style) = {} := fun _ => rfl
  obtain ⟨painted, style, row, col, grid, canvas⟩ :=
    feeds_rows (w := w) (paintable title) st.buf.grid blank quiet
      (by rw [length_replicate, ok.buf.grid_length]) ok.cols_pos rowsLt glyphs
  obtain ⟨client, final, tail⟩ := feeds_epilogue (w := w) canvas ok settled rowsLt h.col_lt
  have rowLow := ok.cursorRow_nonneg
  have colLow := ok.cursorCol_nonneg
  refine ⟨restored st client, ?_, ?_, ?_⟩
  · rw [vtStateDump, flatten_append, flatten_append, flatten_append, flatten_cons,
      flatten_singleton, append_assoc, append_assoc]
    exact (feeds_prologue ok.rows_pos ok.cols_pos scrollback _).append (titled.append (grid.append tail))
  · exact {
      screen := final.screen
      cursorRow := final.row.trans (by omega)
      cursorCol := final.col.trans (by omega)
      cursorVis := rfl
      cursorShape := rfl
      altscreen := (congrArg (fun s : VtState => s.modes.altscreen) final.frame :)
      kittyKbdFlags := rfl
      modifyOtherKeys := rfl
      title := fun plain fits => (congrArg (fun s : VtState => s.title.getD []) final.frame :).trans (sameTitle plain fits) }
  · exact {
      style := final.style
      saved := (congrArg VtState.saved final.frame :)
      scrollTop := (congrArg VtState.scrollTop final.frame :)
      scrollBot := (congrArg VtState.scrollBot final.frame :)
      autowrap := (congrArg (fun s : VtState => s.modes.autowrap) final.frame :)
      origin := (congrArg (fun s : VtState => s.modes.origin) final.frame :)
      insert := (congrArg (fun s : VtState => s.modes.insert) final.frame :)
      charset := (congrArg VtState.charset final.frame :)
      g0Set := (congrArg VtState.g0Set final.frame :)
      g1Set := (congrArg VtState.g1Set final.frame :)
      tabstops := (congrArg VtState.tabstops final.frame :)
      primary := fun onAlt => by
        have alt : client.modes.altscreen = true := onAlt
        have mode : client.modes.altscreen = st.modes.altscreen :=
          (congrArg (fun s : VtState => s.modes.altscreen) final.frame :)
        have active : client.active = .alt := by
          have := (congrArg VtState.active final.frame :)
          rw [← mode, alt] at this
          exact this
        have kept := (congrArg VtState.primary final.frame :)
        rw [← mode, alt] at kept
        have same : client.primary = (VtState.new rows cols scrollback).primary.clearRows 0 rows .default := by
          simpa [VtState.frame, VtState.setBuf, active, receiver] using kept
        show client.primary.grid.map Row.cells = _
        rw [same]
        exact cells_clearRows (bufOk_new rows cols _) }

/-- **Snapshot fidelity**: the chunks of a dump, fed to a fresh terminal of the same size, reproduce
what the dump shows of the state. -/
theorem dump_snapshot (w : WidthTable) (st : VtState) (scrollback : Int) (inv : st.Invariant) (h : Replayable w st) :
    SameSnapshot st ((Emu.new st.buf.rows st.buf.cols scrollback).feed w (vtStateDump st).flatten).vt := by
  obtain ⟨client, ⟨actions, emits, -, applied⟩, same, -⟩ := feeds_dump (w := w) inv h.toDrawable scrollback
  obtain ⟨p', -, fed⟩ := emits.feed (e := Emu.new st.buf.rows st.buf.cols scrollback) ⟨rfl, rfl⟩
  rw [fed]
  show SameSnapshot st (actions.foldl VtState.apply (VtState.new st.buf.rows st.buf.cols scrollback))
  rw [applied]
  exact { same with
    kittyKbdFlags := same.kittyKbdFlags.trans (readBack_of_lt h.kitty_lt)
    modifyOtherKeys := same.modifyOtherKeys.trans (readBack_of_lt h.keys_lt) }

theorem dump_snapshot_wide :
    let st := ((Emu.new 1 4 0).feed latestTable (ascii "\x1b[1m" ++ utf8Encode 0x4E00 ++ ascii "b\x1b]2;t\x07\x0d")).vt
    SameSnapshot st ((Emu.new st.buf.rows st.buf.cols 0).feed latestTable (vtStateDump st).flatten).vt := by
  intro st
  have inv : st.Invariant := ((Emu.Ok.new (by decide) (by decide) 0).feed latestTable _).vt.invariant
  refine dump_snapshot latestTable st 0 inv ?_
  have screen : st.screen =
      [[⟨0x4E00, { attrs.bold := true }, 2⟩, Cell.continuation, ⟨0x62, { attrs.bold := true }, 1⟩, Cell.clear]] := by
    decide +kernel
  refine ⟨⟨?_, ?_, by decide +kernel, by decide +kernel, by decide +kernel⟩, by decide +kernel, by decide +kernel⟩
  · rw [screen]
    decide +kernel
  · rw [screen]
    decide

theorem dump_kitty_clamped :
    let st := ((Emu.new 1 2 0).feed latestTable (ascii "\x1b[=524288u\x1b[=131072;2u")).vt
    st.Invariant ∧ (∀ row ∈ st.screen, WideRow latestTable row) ∧ (∀ row ∈ st.screen, ∀ c ∈ row, Dumpable c) ∧
      st.cursorCol < st.buf.cols ∧ st.kittyKbdFlags = 655360 ∧
      ((Emu.new st.buf.rows st.buf.cols 0).feed latestTable (vtStateDump st).flatten).vt.kittyKbdFlags = 65536 := by
  intro st
  have inv : st.Invariant := ((Emu.Ok.new (by decide) (by decide) 0).feed latestTable _).vt.invariant
  have screen : st.screen = [[Cell.clear, Cell.clear]] := by decide +kernel
  refine ⟨inv, ?_, ?_, by decide +kernel, by decide +kernel, by decide +kernel⟩
  · rw [screen]
    decide +kernel
  · rw [screen]
    decide

end Lumimux.Vt
