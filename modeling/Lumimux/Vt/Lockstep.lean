import Lumimux.Vt.Emits
import Lumimux.Vt.Twin

/-!
# Twin terminals fed the same bytes stay twins

Dispatched operations keep `VtState.Twin`, and parsers that agree on what they still read return the same actions.
-/

namespace Lumimux.Vt
open Lib Utf8

namespace VtState

theorem reply_hidden (st : VtState) (data : Bytes) : ∃ replies, st.reply data = { st with replies := replies } := by
  unfold reply
  split
  · exact ⟨_, rfl⟩
  · exact ⟨st.replies, rfl⟩

theorem oscColorReply_hidden (st : VtState) (num : Nat) : ∃ replies, st.oscColorReply num = { st with replies := replies } := by
  unfold oscColorReply
  split
  · exact ⟨st.replies, rfl⟩
  · extract_lets rep
    split
    · exact st.reply_hidden rep
    · exact ⟨st.replies, rfl⟩

theorem opOsc_hidden (st : VtState) (data : Bytes) :
    ∃ title replies, st.opOsc data = { st with title := title, replies := replies } := by
  have color : ∀ num, ∃ title replies, st.oscColorReply num = { st with title := title, replies := replies } := by
    intro num
    obtain ⟨replies, replied⟩ := st.oscColorReply_hidden num
    exact ⟨st.title, replies, replied⟩
  have same : ∃ title replies, st = { st with title := title, replies := replies } := ⟨st.title, st.replies, rfl⟩
  unfold opOsc
  split
  · extract_lets text
    split
    · exact ⟨_, st.replies, rfl⟩
    · exact ⟨_, st.replies, rfl⟩
    · split
      · exact color 10
      · exact same
    · split
      · exact color 11
      · exact same
    · exact same
  · exact same

end VtState

namespace VtState.Twin

variable {x y : VtState}

section
variable (h : x.Twin y)
include h

theorem csiEraseDisplay (mode : Nat) : (x.csiEraseDisplay mode).Twin (y.csiEraseDisplay mode) := by
  simp only [VtState.csiEraseDisplay, h.cursorRow, h.cursorCol, h.buf.rows, h.buf.cols, h.style]
  split
  · exact (h.editRow (RowTwin.eraseRange _ _ _)).modifyBuf fun b b' same => same.clearRows ..
  · exact (h.modifyBuf fun b b' same => same.clearRows ..).editRow (RowTwin.eraseRange _ _ _)
  · exact h.modifyBuf fun b b' same => same.clearRows ..
  · exact h.modifyBuf fun b b' same => same.clearRows ..
  · exact h

theorem csiEraseLine (mode : Nat) : (x.csiEraseLine mode).Twin (y.csiEraseLine mode) := by
  simp only [VtState.csiEraseLine, h.cursorCol, h.buf.cols, h.style]
  split
  · exact h.editRow (RowTwin.eraseRange _ _ _)
  · exact h.editRow (RowTwin.eraseRange _ _ _)
  · exact h.editRow (RowTwin.eraseRange _ _ _)
  · exact h

theorem scrollFromCursor (count : Int) : (x.scrollFromCursor count).Twin (y.scrollFromCursor count) := by
  simp only [VtState.scrollFromCursor, h.cursorRow, h.scrollTop, h.scrollBot]
  split
  · exact h
  · exact h.scroll ..

theorem charCount (count : Nat) : x.charCount count = y.charCount count := by
  simp only [VtState.charCount, h.buf.cols, h.cursorCol]

theorem csiInsertChars (count : Nat) : (x.csiInsertChars count).Twin (y.csiInsertChars count) := by
  simp only [VtState.csiInsertChars, h.charCount, h.cursorCol, h.style]
  exact h.editRow ((RowTwin.eraseRange _ _ _).comp (RowTwin.shiftRight _ _))

theorem csiDeleteChars (count : Nat) : (x.csiDeleteChars count).Twin (y.csiDeleteChars count) := by
  simp only [VtState.csiDeleteChars, h.charCount, h.cursorCol, h.style, h.buf.cols]
  exact h.editRow ((RowTwin.eraseRange _ _ _).comp (RowTwin.shiftLeft _ _))

theorem csiEraseChars (count : Nat) : (x.csiEraseChars count).Twin (y.csiEraseChars count) := by
  simp only [VtState.csiEraseChars, h.charCount, h.cursorCol, h.style]
  exact h.editRow (RowTwin.eraseRange _ _ _)

theorem reply (data data' : Bytes) : (x.reply data).Twin (y.reply data') := by
  obtain ⟨_, hx⟩ := x.reply_hidden data
  obtain ⟨_, hy⟩ := y.reply_hidden data'
  rw [hx, hy]
  exact { h with }

theorem decset (n : Nat) : (x.decset n).Twin (y.decset n) := by
  unfold VtState.decset
  split
  · exact { h with }
  · exact { h with origin := rfl, cursorRow := h.scrollTop, cursorCol := rfl }
  · exact { h with autowrap := rfl }
  · exact { h with }
  · exact h.altscreenEnter
  · exact h.altscreenEnter
  · exact h.altscreenEnter
  · exact { h with }
  · exact { h with }
  · exact { h with }
  · exact { h with }
  · exact h

theorem decrst (n : Nat) : (x.decrst n).Twin (y.decrst n) := by
  unfold VtState.decrst
  split
  · exact { h with }
  · exact { h with origin := rfl, cursorRow := rfl, cursorCol := rfl }
  · exact { h with autowrap := rfl }
  · exact { h with }
  · exact h.altscreenLeave
  · exact h.altscreenLeave
  · exact h.altscreenLeave
  · exact { h with }
  · exact { h with }
  · exact { h with }
  · exact { h with }
  · exact h

theorem opCsiPrivate (params : List Int) (final : UInt8) :
    (x.opCsiPrivate params final).Twin (y.opCsiPrivate params final) := by
  unfold VtState.opCsiPrivate
  extract_lets n
  split
  · exact h.decset n
  · exact h.decrst n
  · exact h.reply _ _
  · split
    · exact h.reply _ _
    · exact h
  · exact h

theorem addressedRow (n : Nat) : x.addressedRow n = y.addressedRow n := by
  simp only [VtState.addressedRow, h.origin, h.scrollTop, h.scrollBot]

theorem setScrollRegion (n m : Nat) : (x.setScrollRegion n m).Twin (y.setScrollRegion n m) := by
  dsimp only [VtState.setScrollRegion]
  rw [h.buf.rows]
  generalize (if n < 1 then 1 else n) = top
  generalize (if m > y.buf.rows then y.buf.rows else m) = bottom
  split
  · exact { h with scrollTop := rfl, scrollBot := rfl, cursorRow := rfl, cursorCol := rfl }
  · exact { h with cursorRow := rfl, cursorCol := rfl }

theorem cursorUp (n : Nat) : (x.cursorUp n).Twin (y.cursorUp n) :=
  { h with cursorRow := by simp only [VtState.cursorUp, h.cursorRow] }

theorem cursorDown (n : Nat) : (x.cursorDown n).Twin (y.cursorDown n) :=
  { h with cursorRow := by simp only [VtState.cursorDown, h.cursorRow, h.buf.rows] }

theorem cursorForward (n : Nat) : (x.cursorForward n).Twin (y.cursorForward n) :=
  { h with cursorCol := by simp only [VtState.cursorForward, h.cursorCol, h.buf.cols] }

theorem cursorBack (n : Nat) : (x.cursorBack n).Twin (y.cursorBack n) :=
  { h with cursorCol := by simp only [VtState.cursorBack, h.cursorCol] }

theorem deviceStatus (n : Nat) : (x.deviceStatus n).Twin (y.deviceStatus n) := by
  unfold VtState.deviceStatus
  split
  · exact h.reply _ _
  · split
    · exact h.reply _ _
    · exact h

theorem titlePush : x.titlePush.Twin y.titlePush := by
  unfold VtState.titlePush
  split <;> split <;> exact { h with }

theorem titlePop : x.titlePop.Twin y.titlePop := by
  unfold VtState.titlePop
  split <;> split <;> exact { h with }

theorem moveTo (n : Nat) (col : Int) : (VtState.cursorClamp { x with cursorRow := x.addressedRow n, cursorCol := col }).Twin
      (VtState.cursorClamp { y with cursorRow := y.addressedRow n, cursorCol := col }) :=
  cursorClamp { h with cursorRow := h.addressedRow n, cursorCol := rfl }

theorem opCsiPlain (params : List Int) (final : UInt8) : (x.opCsiPlain params final).Twin (y.opCsiPlain params final) := by
  unfold VtState.opCsiPlain
  extract_lets n
  split
  · exact h.cursorUp n
  · exact h.cursorDown n
  · exact h.cursorForward n
  · exact h.cursorBack n
  · exact { h.cursorDown n with cursorCol := rfl }
  · exact { h.cursorUp n with cursorCol := rfl }
  · exact cursorClamp { h with cursorCol := rfl }
  · exact h.moveTo n _
  · exact h.moveTo n _
  · exact h.csiEraseDisplay _
  · exact h.csiEraseLine _
  · exact h.scrollFromCursor _
  · exact h.scrollFromCursor _
  · exact h.csiDeleteChars n
  · rw [h.scrollTop, h.scrollBot]
    exact h.scroll ..
  · rw [h.scrollTop, h.scrollBot]
    exact h.scroll ..
  · exact h.csiEraseChars n
  · exact h.csiInsertChars n
  · split
    · exact h.reply _ _
    · exact h
  · exact h.deviceStatus _
  · exact cursorClamp { h with cursorRow := h.addressedRow n }
  · split
    · exact { h with insert := rfl }
    · exact h
  · split
    · exact { h with insert := rfl }
    · exact h
  · exact { h with style := congrArg (csiSgr params) h.style }
  · rw [h.buf.rows]
    exact h.setScrollRegion n _
  · exact h.cursorSave
  · exact h.cursorRestore
  · split
    · rw [h.cursorCol]
      exact h.tabWrite _ _
    · split
      · exact h.tabClearAll
      · exact h
  · split
    · exact h.titlePush
    · split
      · exact h.titlePop
      · exact h
  · exact { h with cursorCol := by rw [h.tabPrev, h.cursorCol] }
  · exact h

theorem opCsi (params : List Int) (intermed final : UInt8) :
    (x.opCsi params intermed final).Twin (y.opCsi params intermed final) := by
  unfold VtState.opCsi
  extract_lets n
  split_ifs
  · exact h.opCsiPrivate _ _
  · exact { h with }
  · exact h
  · exact { h with }
  · exact { h with }
  · exact { h with }
  · exact { h with }
  · exact h
  · exact h
  · exact h.opCsiPlain _ _

theorem fullReset : x.fullReset.Twin y.fullReset := by
  have left := h.altscreenLeave
  refine csiEraseDisplay (tabReset ?_) 2
  exact
    { left with
      cursorRow := rfl
      cursorCol := rfl
      scrollTop := rfl
      scrollBot := congrArg Int.ofNat left.buf.rows
      autowrap := rfl
      origin := rfl
      insert := rfl
      altscreen := rfl
      style := rfl
      charset := rfl
      g0Set := rfl
      g1Set := rfl }

theorem opEsc (intermed final : UInt8) : (x.opEsc intermed final).Twin (y.opEsc intermed final) := by
  unfold VtState.opEsc
  split
  · split
    · exact h.cursorSave
    · exact h.cursorRestore
    · exact h.index
    · exact index { h with cursorCol := rfl }
    · rw [h.cursorCol]
      exact h.tabWrite _ _
    · exact h.reverseIndex
    · exact { h with }
    · exact { h with }
    · exact h.fullReset
    · exact h
  · split_ifs
    · exact { h with g0Set := rfl }
    · exact { h with g0Set := rfl }
    · exact h
    · exact { h with g1Set := rfl }
    · exact { h with g1Set := rfl }
    · exact h
    · exact h

theorem opOsc (data : Bytes) : (x.opOsc data).Twin (y.opOsc data) := by
  obtain ⟨_, _, hx⟩ := x.opOsc_hidden data
  obtain ⟨_, _, hy⟩ := y.opOsc_hidden data
  rw [hx, hy]
  exact { h with }

theorem apply (a : VtAction) : (x.apply a).Twin (y.apply a) := by
  cases a with
  | print cp width => exact h.opPrint cp width
  | execute c => exact h.opExecute c
  | csi params intermed final => exact h.opCsi params intermed final
  | esc intermed final => exact h.opEsc intermed final
  | osc data => exact h.opOsc data
  | dcs introducer data => exact h

theorem applyAll (actions : List VtAction) : (actions.foldl VtState.apply x).Twin (actions.foldl VtState.apply y) :=
  List.foldl_rel h fun a _ _ _ h => h.apply a

end

end VtState.Twin

def VtParse.live (p : VtParse) : VtParse :=
  let shared : VtParse :=
    { state := p.state, utf8Need := p.utf8Need, utf8Buf := if p.utf8Need > 0 then p.utf8Buf else [] }
  match p.state with
  | .ground => shared
  | .escape => { shared with intermed := p.intermed }
  | .escapeIntermed => { shared with intermed := p.intermed }
  | .csiEntry =>
    { shared with intermed := p.intermed, params := p.params, curParam := p.curParam, hasDigit := p.hasDigit }
  | .csiParam =>
    { shared with intermed := p.intermed, params := p.params, curParam := p.curParam, hasDigit := p.hasDigit }
  | .csiIntermed => { shared with intermed := p.intermed, params := p.params }
  | .csiIgnore => shared
  | .oscString => { shared with osc.data := p.osc.data }
  | .dcsPassthru => { shared with dcs.data := p.dcs.data, dcsIntroducer := p.dcsIntroducer }

def seen (r : VtParse × List VtAction) : VtParse × List VtAction := (r.1.live, r.2)

theorem live_of_ground {p} (ground : Ground p) : p.live = {} := by
  simp only [VtParse.live, ground.1, ground.2]
  rfl

theorem seen_groundByte (w : WidthTable) {p p'} (ground : Ground p) (ground' : Ground p') (c : UInt8) :
    seen (groundByte w p c) = seen (groundByte w p' c) := by
  have cancelled : ∀ q : VtParse, Ground q → Ground (utf8Cancel q) := fun q h => ⟨h.1, rfl⟩
  unfold groundByte
  split
  · simp only [seen, live_of_ground ground, live_of_ground ground']
  split
  · simp only [seen, live_of_ground ground, live_of_ground ground']
  split
  · simp only [seen, live_of_ground ground, live_of_ground ground']
  split
  · simp only [seen, VtParse.live, ground.1, ground'.1]
  · simp only [seen, live_of_ground (cancelled p ground), live_of_ground (cancelled p' ground')]

theorem seen_processGround (w : WidthTable) (p : VtParse) (c : UInt8) (state : p.state = .ground) :
    seen (processGround w p c) = seen (processGround w p.live c) := by
  have live : p.live = { utf8Need := p.utf8Need, utf8Buf := if p.utf8Need > 0 then p.utf8Buf else [] } := by
    simp only [VtParse.live, state]
  rw [live]
  simp only [processGround]
  have cancelled : Ground (utf8Cancel p) := ⟨state, rfl⟩
  split
  · rename_i pending
    split
    · split
      · rw [seen, seen, live_of_ground cancelled]
        rfl
      · simp only [seen, VtParse.live, state]
    · have kept : Ground (utf8Cancel { utf8Need := p.utf8Need, utf8Buf := p.utf8Buf }) := ⟨rfl, rfl⟩
      have same := seen_groundByte w cancelled kept c
      simp only [seen, Prod.mk.injEq] at same ⊢
      exact ⟨same.1, congrArg _ same.2⟩
  · rename_i settled
    have need : p.utf8Need = 0 := by omega
    have emptied : Ground { utf8Need := p.utf8Need, utf8Buf := [] } := ⟨rfl, need⟩
    exact seen_groundByte w ⟨state, need⟩ emptied c

theorem live_state (p : VtParse) : p.live.state = p.state := by
  cases h : p.state <;> simp only [VtParse.live, h]

theorem live_live (p : VtParse) : p.live.live = p.live := by
  cases h : p.state <;> simp only [VtParse.live, h] <;> split_ifs <;> rfl

theorem seen_processEsc (p : VtParse) : seen (processEsc p) = seen (processEsc p.live) := by
  cases h : p.state <;> simp [processEsc, seen, VtParse.live, utf8Cancel, emitOsc, emitDcs, h]

theorem seen_processByte (w : WidthTable) (p : VtParse) (c : UInt8) :
    seen (processByte w p c) = seen (processByte w p.live c) := by
  unfold processByte
  rw [live_state]
  split
  · exact seen_processEsc p
  split
  · rw [seen, seen, live_live]
  cases h : p.state with
  | ground => exact seen_processGround w p c h
  | escape =>
    simp only [processEscape]
    split_ifs <;> simp +contextual [seen, VtParse.live, csiReset, h]
  | escapeIntermed =>
    simp only [processEscapeIntermed]
    split_ifs <;> simp +contextual [seen, VtParse.live, h]
  | csiEntry =>
    simp only [processCsiEntry, finishCsi]
    split_ifs <;> simp +contextual [seen, VtParse.live, csiFinishParam, emitCsi, h]
  | csiParam =>
    have number : p.live.curParam = p.curParam := by simp only [VtParse.live, h]
    simp only [processCsiParam, finishCsi, number]
    split_ifs <;> simp +contextual [seen, VtParse.live, csiFinishParam, emitCsi, h]
  | csiIntermed =>
    simp only [processCsiIntermed]
    split_ifs <;> simp +contextual [seen, VtParse.live, emitCsi, h]
  | csiIgnore =>
    simp only [processCsiIgnore]
    split_ifs <;> simp +contextual [seen, VtParse.live, h]
  | oscString =>
    have data : p.live.osc.data = p.osc.data := by simp only [VtParse.live, h]
    simp only [processOsc, emitOsc, oscAppend, StrBuf.append, data]
    split_ifs <;> simp +contextual [seen, VtParse.live, h]
  | dcsPassthru =>
    have data : p.live.dcs.data = p.dcs.data := by simp only [VtParse.live, h]
    simp only [dcsAppend, StrBuf.append, data]
    split_ifs <;> simp +contextual [seen, VtParse.live, h]

/-- Twin terminals whose parsers read on alike. -/
structure Emu.Twin (x y : Emu) : Prop where
  vt : x.vt.Twin y.vt
  parse : x.parse.live = y.parse.live

theorem Emu.Twin.actions {x y : Emu} (h : x.Twin y) (w : WidthTable) (b : UInt8) :
    seen (processByte w x.parse b) = seen (processByte w y.parse b) := by
  rw [seen_processByte, h.parse, ← seen_processByte]

theorem Emu.Twin.step {x y : Emu} (h : x.Twin y) (w : WidthTable) (b : UInt8) : (x.step w b).Twin (y.step w b) := by
  have same := h.actions w b
  have actions : (processByte w x.parse b).2 = (processByte w y.parse b).2 := (congrArg Prod.snd same :)
  refine ⟨?_, (congrArg Prod.fst same :)⟩
  simp only [Emu.step, actions]
  exact h.vt.applyAll _

theorem Emu.Twin.feed {x y : Emu} (h : x.Twin y) (w : WidthTable) (bytes : Bytes) :
    (x.feed w bytes).Twin (y.feed w bytes) :=
  List.foldl_rel h fun b _ _ _ h => h.step w b

theorem Emu.Twin.parseBytes {x y : Emu} (h : x.Twin y) (w : WidthTable) (bytes : Bytes) :
    (Vt.parseBytes w x.parse bytes).2 = (Vt.parseBytes w y.parse bytes).2 := by
  induction bytes generalizing x y with
  | nil => rfl
  | cons b rest ih =>
    have first : (processByte w x.parse b).2 = (processByte w y.parse b).2 := (congrArg Prod.snd (h.actions w b) :)
    simp only [Vt.parseBytes, first]
    exact congrArg _ (ih (h.step w b))

end Lumimux.Vt
