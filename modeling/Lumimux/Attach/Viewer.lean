import Lumimux.Vt.Quiet

/-!
# The scrollback viewer (`cmd/attach/attach.c`)

The viewer shows a part of the history by making a scratch buffer the active target.
-/

namespace Lumimux.Attach
open Lib Utf8 Vt

def scrollbackEnter (vt : VtState) : VtState :=
  let rows := vt.primary.rows
  let cols := vt.primary.cols
  { vt with
    scrollback :=
      match vt.scrollback with
      | none => some (VtBuf.new rows cols 0)
      | some scratch => some (scratch.resize rows cols) }

def viewTop (primary scratch : VtBuf) (offset : Int) : Int :=
  let total : Int := primary.ringLen + primary.rows
  let offset := if offset > total - scratch.rows then total - scratch.rows else offset
  let offset := if offset < 0 then 0 else offset
  let top := total - offset - scratch.rows
  if top < 0 then 0 else top

def scrollbackPrepare (vt : VtState) (offset : Int) : VtState :=
  match vt.scrollback with
  | none => vt
  | some scratch =>
    let view := scratch.copyScrollback vt.primary 0 (viewTop vt.primary scratch offset) scratch.rows
    VtState.setTarget { vt with scrollback := some view } .scrollback

def scrollbackLeave (vt : VtState) : VtState := vt.setTarget .primary

inductive ViewEvent where
  | prepare (offset : Int)
  | output (data : Bytes)
  deriving DecidableEq, Repr

def viewStep (cb : DcsCb) (w : WidthTable) (e : Emu) : ViewEvent → Emu
  | .prepare offset => { e with vt := scrollbackPrepare e.vt offset }
  | .output data => e.feedWith cb w data

def openViewer (e : Emu) (offset : Int) : Emu := { e with vt := scrollbackPrepare (scrollbackEnter e.vt) offset }

/-- The terminal after the viewer was opened, shown and fed as the events say, and left again. -/
def viewed (cb : DcsCb) (w : WidthTable) (e : Emu) (offset : Int) (events : List ViewEvent) : VtState :=
  scrollbackLeave (events.foldl (viewStep cb w) (openViewer e offset)).vt

def outputOf (events : List ViewEvent) : Bytes :=
  events.flatMap fun
    | .prepare _ => []
    | .output data => data

/-- The primary grid with its history, the cursor and the active target are the same. -/
@[mk_iff] structure Undisturbed (vt plain : VtState) : Prop where
  primary : vt.primary = plain.primary
  cursorRow : vt.cursorRow = plain.cursorRow
  cursorCol : vt.cursorCol = plain.cursorCol
  active : vt.active = plain.active

instance (vt plain : VtState) : Decidable (Undisturbed vt plain) := decidable_of_iff' _ (undisturbed_iff vt plain)

/-- Each call that the bytes make is quiet in the state it is made in. -/
def QuietOutput (cb : DcsCb) (w : WidthTable) (e : Emu) (data : Bytes) : Prop :=
  Along (Emu.stepWith cb w)
    (fun e b => Along (VtState.applyWith cb) VtState.Quiet e.vt (processByte w e.parse b).2) e data

/-- Output that comes while viewing is quiet. -/
def QuietEvent (cb : DcsCb) (w : WidthTable) (e : Emu) : ViewEvent → Prop
  | .prepare _ => True
  | .output data => QuietOutput cb w e data

instance (cb : DcsCb) (w : WidthTable) (e : Emu) (event : ViewEvent) : Decidable (QuietEvent cb w e event) := by
  cases event with
  | prepare => exact isTrue trivial
  | output data => exact inferInstanceAs (Decidable (Along _ _ _ data))

theorem size_copyScrollback (dst src : VtBuf) (dstRow srcOffset : Int) (count : Nat) :
    (dst.copyScrollback src dstRow srcOffset count).rows = dst.rows ∧
      (dst.copyScrollback src dstRow srcOffset count).cols = dst.cols := by
  induction count generalizing dst dstRow srcOffset with
  | zero => exact ⟨rfl, rfl⟩
  | succ count ih =>
    unfold VtBuf.copyScrollback
    split
    · exact ⟨rfl, rfl⟩
    · obtain ⟨rows, cols⟩ := ih (dst.modifyRow dstRow (copiedRow dst src (src.historyRow srcOffset))) (dstRow + 1)
        (srcOffset + 1)
      rw [VtBuf.rows_modifyRow] at rows
      rw [VtBuf.cols_modifyRow] at cols
      exact ⟨rows, cols⟩

def beside (plain : VtState) (scratch : VtBuf) : Screens := ⟨plain.primary, plain.alt, some scratch, .scrollback⟩

structure Aside (vt plain : VtState) (scratch : VtBuf) : Prop where
  same : vt = plain.on (beside plain scratch)
  rows : scratch.rows = plain.primary.rows
  cols : scratch.cols = plain.primary.cols
  active : plain.active = .primary

namespace Aside

variable {vt plain : VtState} {scratch : VtBuf} {w : WidthTable}

theorem sameSize (h : Aside vt plain scratch) : plain.SameSize (beside plain scratch) := by
  have plainShown : plain.buf = plain.primary := by
    simp only [VtState.buf, VtState.target, h.active, Option.getD_some]
  constructor
  · rw [plainShown]
    exact h.rows
  · rw [plainShown]
    exact h.cols

theorem apply (h : Aside vt plain scratch) {a} (quiet : vt.Quiet a) (cb : DcsCb) :
    Aside (vt.applyWith cb a) (plain.applyWith cb a) scratch := by
  have plainQuiet : plain.Quiet a := VtState.quiet_on.mp (h.same ▸ quiet)
  rw [quiet.applyWith, plainQuiet.applyWith]
  have kept := plainQuiet.screens
  have primary : (plain.apply a).primary = plain.primary := congrArg Screens.primary kept
  have alt : (plain.apply a).alt = plain.alt := congrArg Screens.alt kept
  have active : (plain.apply a).active = plain.active := congrArg Screens.active kept
  refine ⟨?_, ?_, ?_, active.trans h.active⟩
  · rw [h.same, h.sameSize.apply plainQuiet, beside, beside, primary, alt]
  · rw [primary, h.rows]
  · rw [primary, h.cols]

theorem prepare (h : Aside vt plain scratch) (offset : Int) : ∃ view, Aside (scrollbackPrepare vt offset) plain view := by
  obtain ⟨rfl, rows, cols, active⟩ := h
  obtain ⟨viewRows, viewCols⟩ := size_copyScrollback scratch plain.primary 0 (viewTop plain.primary scratch offset)
    scratch.rows
  exact ⟨_, rfl, viewRows.trans rows, viewCols.trans cols, active⟩

end Aside

theorem aside_applyAll {cb scratch actions vt plain} (h : Aside vt plain scratch)
    (quiet : Along (VtState.applyWith cb) VtState.Quiet vt actions) :
    Aside (actions.foldl (VtState.applyWith cb) vt) (actions.foldl (VtState.applyWith cb) plain) scratch := by
  induction actions generalizing vt plain with
  | nil => exact h
  | cons a rest ih => exact ih (h.apply quiet.1 cb) quiet.2

def EmuAside (e plain : Emu) (scratch : VtBuf) : Prop := Aside e.vt plain.vt scratch ∧ e.parse = plain.parse

theorem EmuAside.feed {cb scratch w data e plain} (h : EmuAside e plain scratch) (quiet : QuietOutput cb w e data) :
    EmuAside (e.feedWith cb w data) (plain.feedWith cb w data) scratch := by
  induction data generalizing e plain with
  | nil => exact h
  | cons b rest ih =>
    obtain ⟨first, later⟩ := quiet
    have stepped : EmuAside (e.stepWith cb w b) (plain.stepWith cb w b) scratch := by
      have calls := aside_applyAll h.1 first
      simp only [EmuAside, Emu.stepWith, ← h.2]
      exact ⟨calls, trivial⟩
    exact ih stepped later

theorem openViewer_aside {e} (shown : e.vt.active = .primary) (offset : Int) :
    ∃ scratch, EmuAside (openViewer e offset) e scratch := by
  have entered : ∃ scratch : VtBuf, (scrollbackEnter e.vt).scrollback = some scratch ∧
      scratch.rows = e.vt.primary.rows ∧ scratch.cols = e.vt.primary.cols := by
    unfold scrollbackEnter
    cases e.vt.scrollback with
    | none | some => exact ⟨_, rfl, rfl, rfl⟩
  obtain ⟨scratch, is, rows, cols⟩ := entered
  obtain ⟨viewRows, viewCols⟩ := size_copyScrollback scratch e.vt.primary 0 (viewTop e.vt.primary scratch offset)
    scratch.rows
  refine ⟨_, ⟨?_, viewRows.trans rows, viewCols.trans cols, shown⟩, rfl⟩
  simp only [openViewer, scrollbackPrepare, is]
  rfl

theorem EmuAside.run {cb w events e plain scratch} (h : EmuAside e plain scratch)
    (quiet : Along (viewStep cb w) (QuietEvent cb w) e events) :
    ∃ view, EmuAside (events.foldl (viewStep cb w) e) (plain.feedWith cb w (outputOf events)) view := by
  induction events generalizing e plain scratch with
  | nil => exact ⟨scratch, h⟩
  | cons event rest ih =>
    obtain ⟨first, later⟩ := quiet
    cases event with
    | prepare offset =>
      obtain ⟨view, aside⟩ := h.1.prepare offset
      exact ih (e := viewStep cb w e (.prepare offset)) ⟨aside, h.2⟩ later
    | output data =>
      obtain ⟨view, aside⟩ := ih (h.feed first) later
      refine ⟨view, ?_⟩
      rw [outputOf, List.flatMap_cons, Emu.feedWith_append]
      exact aside

/-- **Viewing the history does not interfere** with a window that shows its primary screen, as long as the
output that comes meanwhile writes to no screen and has no graphics command. -/
theorem viewing_undisturbed (cb : DcsCb) (w : WidthTable) (e : Emu) (shown : e.vt.active = .primary) (offset : Int)
    (events : List ViewEvent) (quiet : Along (viewStep cb w) (QuietEvent cb w) (openViewer e offset) events) :
    Undisturbed (viewed cb w e offset events) (e.feedWith cb w (outputOf events)).vt := by
  obtain ⟨scratch, opened⟩ := openViewer_aside shown offset
  obtain ⟨view, ⟨same, -, -, active⟩, -⟩ := opened.run quiet
  simp only [viewed, scrollbackLeave, same]
  exact ⟨rfl, rfl, rfl, active.symm⟩

theorem quiet_viewing_undisturbed :
    Undisturbed (viewed .none latestTable (Emu.new 2 4 2) 0 [.output [0x0D, 0x0A], .prepare 1, .output [0x08]])
      ((Emu.new 2 4 2).feedWith .none latestTable [0x0D, 0x0A, 0x08]).vt :=
  viewing_undisturbed .none latestTable (Emu.new 2 4 2) rfl 0 [.output [0x0D, 0x0A], .prepare 1, .output [0x08]]
    (by decide +kernel)

theorem viewing_loses_output :
    ¬ Undisturbed (viewed .none latestTable (Emu.new 2 4 2) 0 [.output [0x58]])
      ((Emu.new 2 4 2).feedWith .none latestTable [0x58]).vt := by
  decide +kernel

end Lumimux.Attach
