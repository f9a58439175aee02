import Lumimux.Lib.Run
import Lumimux.Vt.Lockstep

/-!
# Output that writes to no screen

A call that neither writes a cell nor changes the screen does the same on any screens of that size (`Quiet.apply`).
-/

namespace Lumimux.Vt
open Lib Utf8 List

structure Screens where
  primary : VtBuf
  alt : Option VtBuf
  scrollback : Option VtBuf
  active : Target

namespace VtState

def screens (st : VtState) : Screens := ⟨st.primary, st.alt, st.scrollback, st.active⟩

def on (st : VtState) (sc : Screens) : VtState :=
  { st with
    primary := sc.primary
    alt := sc.alt
    scrollback := sc.scrollback
    active := sc.active }

@[simp] theorem on_screens (st : VtState) : st.on st.screens = st := rfl

@[simp] theorem screens_on (st : VtState) (sc : Screens) : (st.on sc).screens = sc := rfl

/-- A call that writes no cell, selects no screen and is no graphics command. -/
def Quiet (st : VtState) : VtAction → Prop
  | .print _ _ => False
  | .execute c => c ∈ [0x0A, 0x0B, 0x0C] → st.cursorRow ≠ st.scrollBot - 1
  | .csi params intermed final =>
    if intermed = 0x3F then final ∈ [0x68, 0x6C] → paramOr params 0 0 ∉ [47, 1047, 1049]
    else intermed = 0 → final ∉ [0x4A, 0x4B, 0x4C, 0x4D, 0x50, 0x53, 0x54, 0x58, 0x40]
  | .esc intermed final =>
    intermed = 0 →
      (final ∈ [0x44, 0x45] → st.cursorRow ≠ st.scrollBot - 1) ∧ (final = 0x4D → st.cursorRow ≠ st.scrollTop) ∧
        final ≠ 0x63
  | .osc _ => True
  | .dcs introducer data => ¬ (VtAction.dcs introducer data).Graphics

instance (st : VtState) : (a : VtAction) → Decidable (st.Quiet a)
  | .print _ _ => inferInstanceAs (Decidable False)
  | .execute _ => inferInstanceAs (Decidable (_ → _))
  | .csi _ _ _ => inferInstanceAs (Decidable (ite _ _ _))
  | .esc _ _ => inferInstanceAs (Decidable (_ → _))
  | .osc _ => inferInstanceAs (Decidable True)
  | .dcs _ _ => inferInstanceAs (Decidable (¬ _))

theorem quiet_on {st : VtState} {sc : Screens} {a : VtAction} : (st.on sc).Quiet a ↔ st.Quiet a := by
  cases a <;> exact Iff.rfl

structure SameSize (st : VtState) (sc : Screens) : Prop where
  rows : (st.on sc).buf.rows = st.buf.rows
  cols : (st.on sc).buf.cols = st.buf.cols

namespace SameSize

variable {st : VtState} {sc : Screens}

theorem cursorClamp (h : st.SameSize sc) : (st.on sc).cursorClamp = st.cursorClamp.on sc := by
  simp only [VtState.cursorClamp, h.rows, h.cols]
  rfl

theorem tabNext (h : st.SameSize sc) : (st.on sc).tabNext = st.tabNext := by
  funext col
  simp only [VtState.tabNext, h.cols]
  rfl

theorem index (h : st.SameSize sc) (inside : st.cursorRow ≠ st.scrollBot - 1) : (st.on sc).index = st.index.on sc := by
  have inside' : (st.on sc).cursorRow ≠ (st.on sc).scrollBot - 1 := inside
  simp only [VtState.index, if_neg inside, if_neg inside', h.rows]
  show (if st.cursorRow < st.buf.rows - 1 then _ else _) = _
  split <;> rfl

theorem reverseIndex (inside : st.cursorRow ≠ st.scrollTop) : (st.on sc).reverseIndex = st.reverseIndex.on sc := by
  have inside' : (st.on sc).cursorRow ≠ (st.on sc).scrollTop := inside
  simp only [VtState.reverseIndex, if_neg inside, if_neg inside']
  show (if st.cursorRow > 0 then _ else _) = _
  split <;> rfl

theorem reply (data : Bytes) : (st.on sc).reply data = (st.reply data).on sc := by
  unfold VtState.reply
  show (if st.replyFd.isSome then _ else _) = _
  split <;> rfl

section
variable (h : st.SameSize sc)
include h

theorem cursorRestore : (st.on sc).cursorRestore = st.cursorRestore.on sc := by
  have moved : SameSize { st with cursorRow := st.saved.row, cursorCol := st.saved.col, style := st.saved.style } sc :=
    ⟨h.rows, h.cols⟩
  exact moved.cursorClamp

theorem tabWrite (col : Int) (stop : Bool) : (st.on sc).tabWrite col stop = (st.tabWrite col stop).on sc := by
  simp only [VtState.tabWrite, h.cols]
  split <;> rfl

theorem tabClearAll : (st.on sc).tabClearAll = st.tabClearAll.on sc := by
  simp only [VtState.tabClearAll, h.cols]
  rfl

theorem cursorDown (n : Nat) : (st.on sc).cursorDown n = (st.cursorDown n).on sc := by
  simp only [VtState.cursorDown, h.rows]
  rfl

theorem cursorForward (n : Nat) : (st.on sc).cursorForward n = (st.cursorForward n).on sc := by
  simp only [VtState.cursorForward, h.cols]
  rfl

theorem setScrollRegion (n m : Nat) : (st.on sc).setScrollRegion n m = (st.setScrollRegion n m).on sc := by
  dsimp only [VtState.setScrollRegion]
  rw [h.rows]
  generalize (if n < 1 then 1 else n) = top
  generalize (if m > st.buf.rows then st.buf.rows else m) = bottom
  split <;> rfl

end

theorem deviceStatus (n : Nat) : (st.on sc).deviceStatus n = (st.deviceStatus n).on sc := by
  unfold VtState.deviceStatus
  split
  · exact reply _
  · split
    · exact reply _
    · rfl

theorem titlePush : (st.on sc).titlePush = st.titlePush.on sc := by
  unfold VtState.titlePush
  show (if st.titleStack.length ≥ titleStackMax then _ else _) = _
  split <;> rfl

theorem titlePop : (st.on sc).titlePop = st.titlePop.on sc := by
  have stack : (st.on sc).titleStack = st.titleStack := rfl
  unfold VtState.titlePop
  rw [stack]
  cases st.titleStack.getLast? <;> rfl

theorem opOsc (data : Bytes) : (st.on sc).opOsc data = (st.opOsc data).on sc := by
  have color : ∀ num, (st.on sc).oscColorReply num = (st.oscColorReply num).on sc := by
    intro num
    have fg : (st.on sc).termFg = st.termFg := rfl
    have bg : (st.on sc).termBg = st.termBg := rfl
    unfold VtState.oscColorReply
    rw [fg, bg]
    cases (if num = 10 then st.termFg else st.termBg) with
    | none => rfl
    | some spec =>
      dsimp only
      split
      · exact reply _
      · rfl
  unfold VtState.opOsc
  split
  · extract_lets text
    split
    · rfl
    · rfl
    · split
      · exact color 10
      · rfl
    · split
      · exact color 11
      · rfl
    · rfl
  · rfl

theorem opExecute (h : st.SameSize sc) {c} (quiet : st.Quiet (.execute c)) :
    (st.on sc).opExecute c = (st.opExecute c).on sc := by
  unfold VtState.opExecute
  split
  · show (if st.cursorCol > 0 then _ else _) = _
    split <;> rfl
  · rw [h.tabNext]
    rfl
  · exact h.index (quiet (by decide))
  · exact h.index (quiet (by decide))
  · exact h.index (quiet (by decide))
  · rfl
  · rfl
  · rfl
  · rfl

theorem decset {n} (stays : n ∉ [47, 1047, 1049]) : (st.on sc).decset n = (st.decset n).on sc := by
  unfold VtState.decset
  split <;> first | rfl | exact absurd (by decide) stays

theorem decrst {n} (stays : n ∉ [47, 1047, 1049]) : (st.on sc).decrst n = (st.decrst n).on sc := by
  unfold VtState.decrst
  split <;> first | rfl | exact absurd (by decide) stays

theorem opCsiPrivate {params final} (stays : final ∈ [0x68, 0x6C] → paramOr params 0 0 ∉ [47, 1047, 1049]) :
    (st.on sc).opCsiPrivate params final = (st.opCsiPrivate params final).on sc := by
  unfold VtState.opCsiPrivate
  extract_lets n
  split
  · exact decset (stays (by decide))
  · exact decrst (stays (by decide))
  · exact reply _
  · split
    · exact reply _
    · rfl
  · rfl

section
variable (h : st.SameSize sc)
include h

theorem opCsiPlain {params final}
    (stays : final ∉ [0x4A, 0x4B, 0x4C, 0x4D, 0x50, 0x53, 0x54, 0x58, 0x40]) :
    (st.on sc).opCsiPlain params final = (st.opCsiPlain params final).on sc := by
  have clamped : ∀ row col : Int, VtState.cursorClamp { st.on sc with cursorRow := row, cursorCol := col } =
      (VtState.cursorClamp { st with cursorRow := row, cursorCol := col }).on sc := by
    intro row col
    have moved : SameSize { st with cursorRow := row, cursorCol := col } sc := ⟨h.rows, h.cols⟩
    exact moved.cursorClamp
  unfold VtState.opCsiPlain
  extract_lets n
  split
  · rfl
  · exact h.cursorDown n
  · exact h.cursorForward n
  · rfl
  · exact congrArg (fun x : VtState => { x with cursorCol := 0 }) (h.cursorDown n)
  · rfl
  · exact clamped _ _
  · exact clamped _ _
  · exact clamped _ _
  -- the sequences that write to the screen
  iterate 9 exact absurd (by decide) stays
  · split
    · exact reply _
    · rfl
  · exact deviceStatus _
  · exact clamped _ _
  · split <;> rfl
  · split <;> rfl
  · rfl
  · rw [h.rows]
    exact h.setScrollRegion n _
  · rfl
  · exact h.cursorRestore
  · split
    · exact h.tabWrite _ _
    · split
      · exact h.tabClearAll
      · rfl
  · split
    · exact titlePush
    · split
      · exact titlePop
      · rfl
  · rfl
  · rfl

theorem opCsi {params intermed final} (quiet : st.Quiet (.csi params intermed final)) :
    (st.on sc).opCsi params intermed final = (st.opCsi params intermed final).on sc := by
  simp only [VtState.Quiet] at quiet
  unfold VtState.opCsi
  extract_lets n
  split_ifs at quiet ⊢
  · exact opCsiPrivate quiet
  · rfl
  · rfl
  · rfl
  · rfl
  · rfl
  · rfl
  · rfl
  · rfl
  · exact h.opCsiPlain (quiet (not_not.mp ‹_›))

theorem opEsc {intermed final} (quiet : st.Quiet (.esc intermed final)) :
    (st.on sc).opEsc intermed final = (st.opEsc intermed final).on sc := by
  have moved : SameSize { st with cursorCol := 0 } sc := ⟨h.rows, h.cols⟩
  unfold VtState.opEsc
  split
  · rename_i plain
    obtain ⟨down, up, reset⟩ := quiet plain
    split
    · rfl
    · exact h.cursorRestore
    · exact h.index (down (by decide))
    · exact moved.index (down (by decide))
    · exact h.tabWrite _ _
    · exact reverseIndex (up rfl)
    · rfl
    · rfl
    · exact absurd rfl reset
    · rfl
  · split_ifs <;> rfl

theorem apply {a} (quiet : st.Quiet a) : (st.on sc).apply a = (st.apply a).on sc := by
  cases a with
  | print cp width => exact quiet.elim
  | execute c => exact h.opExecute quiet
  | csi params intermed final => exact h.opCsi quiet
  | esc intermed final => exact h.opEsc quiet
  | osc data => exact opOsc data
  | dcs introducer data => rfl

end

end SameSize

theorem Quiet.applyWith {st : VtState} {a : VtAction} (quiet : st.Quiet a) (cb : DcsCb) : st.applyWith cb a = st.apply a :=
  st.applyWith_plain cb (by cases a <;> first | exact id | exact quiet)

theorem Quiet.screens {st : VtState} {a : VtAction} (quiet : st.Quiet a) : (st.apply a).screens = st.screens := by
  have own : st.SameSize st.screens := ⟨rfl, rfl⟩
  have same := own.apply quiet
  rw [on_screens] at same
  rw [same, screens_on]

inductive Loud (st : VtState) : VtAction → VtState → Prop
  | print (cp width : Nat) : Loud st (.print cp width) (st.opPrint cp width)
  | index (a : VtAction) : Loud st a st.index
  | nextLine (a : VtAction) : Loud st a (VtState.index { st with cursorCol := 0 })
  | reverseIndex (a : VtAction) : Loud st a st.reverseIndex
  | scroll (a : VtAction) (top bottom count : Int) : Loud st a (st.modifyBuf (·.scroll top bottom count st.style.bg))
  | scrollFromCursor (a : VtAction) (count : Int) : Loud st a (st.scrollFromCursor count)
  | eraseDisplay (params : List Int) : Loud st (.csi params 0 0x4A) (st.csiEraseDisplay (paramOr params 0 0))
  | eraseLine (params : List Int) : Loud st (.csi params 0 0x4B) (st.csiEraseLine (paramOr params 0 0))
  | deleteChars (params : List Int) : Loud st (.csi params 0 0x50) (st.csiDeleteChars (paramOr params 0 1))
  | eraseChars (params : List Int) : Loud st (.csi params 0 0x58) (st.csiEraseChars (paramOr params 0 1))
  | insertChars (params : List Int) : Loud st (.csi params 0 0x40) (st.csiInsertChars (paramOr params 0 1))
  | altscreenEnter (a : VtAction) : Loud st a st.altscreenEnter
  | altscreenLeave (a : VtAction) : Loud st a st.altscreenLeave
  | fullReset (a : VtAction) : Loud st a st.fullReset

theorem loud_csi {st : VtState} {params : List Int} {intermed final : UInt8} (loud : ¬ st.Quiet (.csi params intermed final)) :
    st.Loud (.csi params intermed final) (st.opCsi params intermed final) := by
  simp only [VtState.Quiet] at loud
  split at loud
  · rename_i marker
    subst marker
    simp only [Classical.not_imp, mem_cons, not_mem_nil, or_false, not_not] at loud
    obtain ⟨rfl | rfl, switch⟩ := loud
    · show st.Loud _ (st.decset (paramOr params 0 0))
      rcases switch with same | same | same
      all_goals
        rw [same]
        exact .altscreenEnter _
    · show st.Loud _ (st.decrst (paramOr params 0 0))
      rcases switch with same | same | same
      all_goals
        rw [same]
        exact .altscreenLeave _
  · simp only [Classical.not_imp, mem_cons, not_mem_nil, or_false, not_not] at loud
    obtain ⟨rfl, rfl | rfl | rfl | rfl | rfl | rfl | rfl | rfl | rfl⟩ := loud
    · exact .eraseDisplay params
    · exact .eraseLine params
    · exact .scrollFromCursor _ _
    · exact .scrollFromCursor _ _
    · exact .deleteChars params
    · exact .scroll _ _ _ _
    · exact .scroll _ _ _ _
    · exact .eraseChars params
    · exact .insertChars params

theorem loud_esc {st : VtState} {intermed final : UInt8} (loud : ¬ st.Quiet (.esc intermed final)) :
    st.Loud (.esc intermed final) (st.opEsc intermed final) := by
  simp only [VtState.Quiet, Classical.not_imp, mem_cons, not_mem_nil, or_false] at loud
  obtain ⟨rfl, loud⟩ := loud
  have known : final = 0x44 ∨ final = 0x45 ∨ final = 0x4D ∨ final = 0x63 := by tauto
  rcases known with rfl | rfl | rfl | rfl
  · exact .index _
  · exact .nextLine _
  · exact .reverseIndex _
  · exact .fullReset _

/-- A call leaves the screens alone or is one of the loud ones. -/
theorem apply_cases (st : VtState) (a : VtAction) : (st.apply a).screens = st.screens ∨ st.Loud a (st.apply a) := by
  by_cases quiet : st.Quiet a
  · exact .inl quiet.screens
  · cases a with
    | print cp width => exact .inr (.print cp width)
    | execute c =>
      simp only [VtState.Quiet, Classical.not_imp, mem_cons, not_mem_nil, or_false] at quiet
      rcases quiet.1 with rfl | rfl | rfl <;> exact .inr (.index _)
    | csi params intermed final => exact .inr (loud_csi quiet)
    | esc intermed final => exact .inr (loud_esc quiet)
    | osc => exact absurd trivial quiet
    | dcs => exact .inl rfl

end VtState

end Lumimux.Vt
