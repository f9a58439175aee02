import Lumimux.Attach.Predict
import Lumimux.Lib.Run
import Lumimux.Vt.Mask

/-!
# When speculative echo leaves no trace

A prediction stays in the grid after a rollback. The window is a twin of the unpredicted copy but for the predicted
columns (`Hidden`), until output prints over all of them or echoes them; a cursor movement in between leaves a trace.
-/

namespace Lumimux.Attach
open Lib Utf8 Vt
open List hiding utf8Encode

def Queued (row : Int) : Int → List PredEntry → Prop
  | _, [] => True
  | col, e :: later => e.row = row ∧ e.col = col ∧ 1 ≤ e.width ∧ Queued row (col + e.width) later

@[simp] theorem pendingWidth_nil : pendingWidth [] = 0 := rfl

@[simp] theorem pendingWidth_cons (e : PredEntry) (later : List PredEntry) :
    pendingWidth (e :: later) = e.width + pendingWidth later := by
  simp only [pendingWidth, map_cons, sum_cons]

namespace Queued

variable {row col : Int} {pending : List PredEntry}

theorem nonneg (h : Queued row col pending) : 0 ≤ pendingWidth pending := by
  induction pending generalizing col with
  | nil => exact le_rfl
  | cons e later ih =>
    have wide := h.2.2.1
    have rest := ih h.2.2.2
    rw [pendingWidth_cons]
    omega

theorem empty_of_width (h : Queued row col pending) (none : pendingWidth pending ≤ 0) : pending = [] := by
  cases pending with
  | nil => rfl
  | cons e later =>
    have wide := h.2.2.1
    have rest := h.2.2.2.nonneg
    rw [pendingWidth_cons] at none
    omega

theorem append_one (h : Queued row col pending) {e} (at_row : e.row = row) (at_col : e.col = col + pendingWidth pending)
    (wide : 1 ≤ e.width) : Queued row col (pending ++ [e]) := by
  induction pending generalizing col with
  | nil => exact ⟨at_row, by simpa using at_col, wide, trivial⟩
  | cons first later ih =>
    obtain ⟨first_row, first_col, first_wide, rest⟩ := h
    refine ⟨first_row, first_col, first_wide, ih rest ?_⟩
    rw [at_col, pendingWidth_cons]
    omega

end Queued

structure InMask (n : Int) (vt : VtState) (e : PredEntry) : Prop where
  row : e.row = vt.cursorRow
  low : vt.cursorCol ≤ e.col
  high : e.col < vt.cursorCol + n

theorem Queued.inMask {vt n col pending} (h : Queued vt.cursorRow col pending) (low : vt.cursorCol ≤ col)
    (high : col + pendingWidth pending ≤ vt.cursorCol + n) : ∀ e ∈ pending, InMask n vt e := by
  induction pending generalizing col with
  | nil => simp
  | cons first later ih =>
    obtain ⟨first_row, first_col, first_wide, rest⟩ := h
    rw [pendingWidth_cons] at high
    have behind := rest.nonneg
    intro e member
    rcases mem_cons.mp member with rfl | member
    · exact ⟨first_row, by omega, by omega⟩
    · exact ih rest (by omega) (by omega) e member

section

variable {n : Int} {vt : VtState}

theorem rowWithin_modify {start stop : Int} {col : Nat} (low : start ≤ col) (high : col < stop) (f : Cell → Cell) :
    RowWithin start stop fun r => { r with cells := r.cells.modify col f } := by
  intro r
  refine ⟨length_modify .., fun i outside => ?_⟩
  have elsewhere : col ≠ i := fun same => outside ⟨by omega, by omega⟩
  simp only [getElem?_modify, if_neg elsewhere, Option.map_eq_map, Option.map_id_fun', id]

theorem masked_modifyCell {row col} (at_row : row = vt.cursorRow) (low : vt.cursorCol ≤ col) (high : col < vt.cursorCol + n)
    (f : Cell → Cell) : Masked n (modifyCell vt row col f) vt := by
  unfold modifyCell
  split
  · exact Masked.of_twin (VtState.Twin.refl vt)
  · rw [at_row]
    exact Masked.editRow (by omega) (rowWithin_modify (by omega) (by omega) f)

theorem masked_draw {col width} (low : vt.cursorCol ≤ col) (high : col + width ≤ vt.cursorCol + n) (wide : 1 ≤ width)
    (cp : Nat) : Masked n (drawPrediction vt cp col width) vt := by
  unfold drawPrediction
  extract_lets style attrs marked first drawn
  have masked : Masked n first vt := masked_modifyCell rfl low (by omega) _
  obtain ⟨row, column, -⟩ := masked.frame
  have both : Masked n drawn vt := by
    show Masked n (if _ then _ else _) vt
    split
    · exact (masked_modifyCell row.symm (by omega) (by omega) _).trans masked
    · exact masked
  have dirty : Masked n (drawn.modifyBuf (·.modifyRow drawn.cursorRow Row.markDirty)) drawn :=
    Masked.editRow (by omega) fun _ => ⟨rfl, fun _ _ => rfl⟩
  rw [both.frame.1] at dirty
  exact dirty.trans both

theorem InMask.of_masked {vt'} (same : Masked n vt' vt) {e} (h : InMask n vt e) : InMask n vt' e := by
  obtain ⟨row, col, -⟩ := same.frame
  exact ⟨row ▸ h.row, col ▸ h.low, col ▸ h.high⟩

theorem InMask.unmark {e} (h : InMask n vt e) : Masked n (unmark vt e) vt :=
  masked_modifyCell h.row h.low h.high _

theorem masked_unmarkAll {pending : List PredEntry} (inMask : ∀ e ∈ pending, InMask n vt e) :
    Masked n (pending.foldl unmark vt) vt := by
  induction pending generalizing vt with
  | nil => exact Masked.of_twin (VtState.Twin.refl vt)
  | cons e later ih =>
    have first := (inMask e mem_cons_self).unmark
    exact (ih fun e' member => (inMask e' (mem_cons_of_mem _ member)).of_masked first).trans first

@[simp] theorem predictConfirm_empty {pr} (none : pr.pending = []) (vt : VtState) (data : Bytes) :
    predictConfirm pr vt data = (pr, vt) := by
  cases data with
  | nil => rfl
  | cons c rest => simp only [predictConfirm, none]

def Skipped (c : UInt8) : Prop := c < 0x20 ∨ c = 0x7F ∨ c &&& 0xC0 = 0x80
  deriving Decidable

theorem predictConfirm_cases {pr e later} (pending : pr.pending = e :: later) (vt : VtState) (c : UInt8) (rest : Bytes) :
    predictConfirm pr vt (c :: rest) =
      if Skipped c then predictConfirm pr vt rest
      else if c < 0x80 ∧ e.cp = c.toNat then predictConfirm { pr with pending := later } (unmark vt e) rest
      else rollbackAll pr vt := by
  simp only [predictConfirm, pending]
  rfl

theorem masked_predictConfirm {pr : Predict} (inMask : ∀ e ∈ pr.pending, InMask n vt e) (data : Bytes) :
    Masked n (predictConfirm pr vt data).2 vt := by
  induction data generalizing pr vt with
  | nil => exact Masked.of_twin (VtState.Twin.refl vt)
  | cons c rest ih =>
    cases pending : pr.pending with
    | nil =>
      rw [predictConfirm_empty pending]
      exact Masked.of_twin (VtState.Twin.refl vt)
    | cons e later =>
      rw [predictConfirm_cases pending]
      split_ifs
      · exact ih inMask
      · rw [pending] at inMask
        have first := (inMask e mem_cons_self).unmark
        exact (ih fun e' member => (inMask e' (mem_cons_of_mem _ member)).of_masked first).trans first
      · exact masked_unmarkAll inMask

end

def Echoes : List PredEntry → Bytes → Prop
  | _, [] => True
  | [], _ :: _ => False
  | e :: later, c :: rest => e.cp = c.toNat ∧ 0x20 ≤ e.cp ∧ e.cp < 0x7F ∧ e.width = 1 ∧ Echoes later rest

def Overdraws (w : WidthTable) (vt : VtState) (predicted : Int) (data : Bytes) : Prop :=
  ∃ text rest, data = text.flatMap utf8Encode ++ rest ∧ (∀ cp ∈ text, Prints w cp) ∧ predicted ≤ columns w text ∧
    vt.cursorCol + columns w text ≤ vt.buf.cols

/-- A prediction is drawn on the grid, and output that comes while predictions are pending finds the
parser between sequences and echoes or overdraws them. -/
def Harmless (w : WidthTable) (s : Session) : Event → Prop
  | .key _ width => 1 ≤ width ∧ s.emu.vt.OnGrid
  | .output data =>
    s.pred.pending = [] ∨ Ground s.emu.parse ∧
      (Echoes s.pred.pending data ∨ Overdraws w s.emu.vt (pendingWidth s.pred.pending) data)

theorem not_skipped_ascii {c} (low : 0x20 ≤ c.toNat) (high : c.toNat < 0x7F) : ¬ Skipped c := by
  have table : ∀ n < 0x7F, 0x20 ≤ n → ¬ Skipped (UInt8.ofNat n) := by decide
  have := table c.toNat high low
  rwa [UInt8.ofNat_toNat] at this

theorem not_skipped_lead {c announced} (lead : leadByte c = some announced) : ¬ Skipped c ∧ ¬ c < 0x80 := by
  have table : ∀ n < 256, (leadByte (UInt8.ofNat n)).isSome → ¬ Skipped (UInt8.ofNat n) ∧ ¬ UInt8.ofNat n < 0x80 := by
    decide +kernel
  have := table c.toNat c.toNat_lt
  rw [UInt8.ofNat_toNat] at this
  exact this (by rw [lead]; rfl)

namespace Echoes

variable {row col : Int} {pending : List PredEntry} {data : Bytes}

theorem text (h : Echoes pending data) (w : WidthTable) :
    data = (data.map UInt8.toNat).flatMap utf8Encode ∧ (∀ cp ∈ data.map UInt8.toNat, Prints w cp) ∧
      columns w (data.map UInt8.toNat) = data.length := by
  induction data generalizing pending with
  | nil => exact ⟨rfl, by simp, rfl⟩
  | cons c rest ih =>
    cases pending with
    | nil => exact h.elim
    | cons e later =>
      obtain ⟨same, low, high, -, echoed⟩ := h
      obtain ⟨bytes, prints, width⟩ := ih echoed
      rw [same] at low high
      have one := runeWidth_ascii w low high
      have encoded : utf8Encode c.toNat = [c] := by
        rw [utf8Encode, if_pos (by omega), UInt8.ofNat_toNat]
      refine ⟨?_, ?_, ?_⟩
      · rw [map_cons, flatMap_cons, encoded, ← bytes]
        rfl
      · rw [map_cons]
        refine forall_mem_cons.mpr ⟨⟨⟨by simp only [runeMax]; omega, by omega⟩, by omega⟩, prints⟩
      · simp only [columns, map_cons, sum_cons, one, length_cons] at width ⊢
        omega

theorem pending_drop {pr} (h : Echoes pr.pending data) (vt : VtState) :
    (predictConfirm pr vt data).1.pending = pr.pending.drop data.length := by
  induction data generalizing pr vt with
  | nil => rfl
  | cons c rest ih =>
    cases pending : pr.pending with
    | nil =>
      rw [pending] at h
      exact h.elim
    | cons e later =>
      rw [pending] at h
      obtain ⟨same, low, high, -, echoed⟩ := h
      rw [same] at low high
      have ascii : c < 0x80 := by
        rw [UInt8.lt_iff_toNat_lt]
        exact Nat.lt_succ_of_lt high
      rw [predictConfirm_cases pending, if_neg (not_skipped_ascii low high), if_pos ⟨ascii, same⟩]
      have rest_echoed : Echoes (Predict.pending { pr with pending := later }) rest := echoed
      exact ih rest_echoed _

theorem queued (h : Echoes pending data) (queued : Queued row col pending) :
    Queued row (col + data.length) (pending.drop data.length) ∧
      pendingWidth (pending.drop data.length) = pendingWidth pending - data.length := by
  induction data generalizing pending col with
  | nil => simpa using queued
  | cons c rest ih =>
    cases pending with
    | nil => exact h.elim
    | cons e later =>
      obtain ⟨-, -, -, one, echoed⟩ := h
      obtain ⟨behind, width⟩ := ih echoed queued.2.2.2
      rw [one] at behind
      rw [length_cons, drop_succ_cons, pendingWidth_cons, one, width]
      refine ⟨?_, by push_cast; omega⟩
      rw [show col + ((rest.length + 1 : Nat) : Int) = col + 1 + rest.length by push_cast; omega]
      exact behind

end Echoes

theorem pending_overdrawn {w text} (prints : ∀ cp ∈ text, Prints w cp) {pr row col} (queued : Queued row col pr.pending)
    (covers : pendingWidth pr.pending ≤ columns w text) (vt : VtState) (rest : Bytes) :
    (predictConfirm pr vt (text.flatMap utf8Encode ++ rest)).1.pending = [] := by
  induction text generalizing pr col vt with
  | nil => 
    have none := queued.empty_of_width covers
    rw [predictConfirm_empty none]
    exact none
  | cons cp later ih =>
    obtain ⟨scalar, pos⟩ := prints cp mem_cons_self
    obtain ⟨low, notDel⟩ := printable_of_runeWidth_pos pos
    cases pending : pr.pending with
    | nil =>
      rw [predictConfirm_empty pending]
      exact pending
    | cons e more =>
      rw [flatMap_cons, append_assoc]
      by_cases small : cp ≤ 0x7F
      · have byte : (UInt8.ofNat cp).toNat = cp := UInt8.toNat_ofNat_of_lt' (by simp [UInt8.size]; omega)
        rw [utf8Encode, if_pos small, singleton_append, predictConfirm_cases pending,
          if_neg (not_skipped_ascii (by rw [byte]; exact low) (by rw [byte]; omega))]
        split_ifs
        · have one := runeWidth_ascii w low (by omega)
          rw [pending] at queued covers
          have wide := queued.2.2.1
          have split : columns w (cp :: later) = runeWidth w cp + columns w later := by
            simp only [columns, map_cons, sum_cons]
          rw [pendingWidth_cons, split, one] at covers
          have rest_queued : Queued row (col + e.width) (Predict.pending { pr with pending := more }) := queued.2.2.2
          have rest_covered : pendingWidth (Predict.pending { pr with pending := more }) ≤ columns w later := by
            show pendingWidth more ≤ _
            omega
          exact ih (fun c member => prints c (mem_cons_of_mem _ member)) rest_queued rest_covered _
        · rfl
      · obtain ⟨lead, bits, tails, shape, announced, -, -⟩ := encode_shape scalar (by omega)
        obtain ⟨compared, notAscii⟩ := not_skipped_lead announced
        rw [shape, cons_append, predictConfirm_cases pending, if_neg compared, if_neg fun both => notAscii both.1]
        rfl

structure Hidden (s : Session) : Prop where
  masked : Masked (pendingWidth s.pred.pending) s.emu.vt s.plain.vt
  parse : s.emu.parse.live = s.plain.parse.live
  queued : Queued s.emu.vt.cursorRow s.emu.vt.cursorCol s.pred.pending
  onGrid : s.pred.pending ≠ [] → s.emu.vt.OnGrid
  insert : s.pred.pending ≠ [] → s.emu.vt.modes.insert = false
  room : s.pred.pending ≠ [] → s.emu.vt.cursorCol + pendingWidth s.pred.pending ≤ s.emu.vt.buf.cols

namespace Hidden

variable {s : Session} {w : WidthTable}

theorem start (emu : Emu) (echoOff : Bool) : Hidden (Session.start emu echoOff) where
  masked := Masked.of_twin (VtState.Twin.refl _)
  parse := rfl
  queued := trivial
  onGrid some := absurd rfl some
  insert some := absurd rfl some
  room some := absurd rfl some

theorem noTrace (h : Hidden s) : s.NoTrace := by
  intro none
  have masked := h.masked
  rw [none] at masked
  have cells := congrArg (List.map (List.map unmarked)) (masked.twin le_rfl).buf.cells
  simp only [List.map_map] at cells
  exact cells

theorem predictKey_cases {pr vt} (onGrid : vt.OnGrid) (nonneg : 0 ≤ pendingWidth pr.pending) {width} (wide : 1 ≤ width)
    (cp : Nat) : predictKey pr vt cp width = (pr, vt) ∨
      vt.modes.insert = false ∧ predictCol pr vt + width ≤ vt.buf.cols ∧
        predictKey pr vt cp width =
          ({ pr with pending := pr.pending ++ [⟨cp, vt.cursorRow, predictCol pr vt, width⟩] },
            drawPrediction vt cp (predictCol pr vt) width) := by
  obtain ⟨row_low, row_high, col_low⟩ := onGrid
  unfold predictKey
  extract_lets col recorded
  split
  · exact .inl rfl
  · rename_i accepted
    obtain ⟨allowed, -, -, -, room⟩ := by
      simpa only [not_or, not_lt, Bool.not_eq_false] using accepted
    have insert : vt.modes.insert = false := by
      simp only [canPredict, Bool.and_eq_true, Bool.not_eq_true'] at allowed
      exact allowed.2
    have drawn : ¬ (vt.cursorRow < 0 ∨ (vt.buf.rows : Int) ≤ vt.cursorRow ∨ col < 0 ∨ (vt.buf.cols : Int) ≤ col) := by
      have at_col : col = vt.cursorCol + pendingWidth pr.pending := rfl
      omega
    rw [if_neg drawn]
    exact .inr ⟨insert, by omega, rfl⟩

theorem key (h : Hidden s) {cp width} (harmless : Harmless w s (.key cp width)) : Hidden (s.step w (.key cp width)) := by
  obtain ⟨wide, onGrid⟩ := harmless
  rcases predictKey_cases onGrid h.queued.nonneg wide cp with refused | ⟨insert, room, accepted⟩
  · simp only [Session.step, refused]
    exact h
  · have total : pendingWidth (s.pred.pending ++ [⟨cp, s.emu.vt.cursorRow, predictCol s.pred s.emu.vt, width⟩]) =
        pendingWidth s.pred.pending + width := by
      simp only [pendingWidth, map_append, sum_append, map_cons, map_nil, sum_singleton]
    have nonneg := h.queued.nonneg
    have at_col : predictCol s.pred s.emu.vt = s.emu.vt.cursorCol + pendingWidth s.pred.pending := rfl
    have drawn : Masked (pendingWidth s.pred.pending + width)
        (drawPrediction s.emu.vt cp (predictCol s.pred s.emu.vt) width) s.emu.vt :=
      masked_draw (by omega) (by omega) wide cp
    obtain ⟨row, col, sameInsert, -, cols⟩ := drawn.frame
    simp only [Session.step, accepted]
    exact {
      masked := by
        rw [total]
        exact drawn.trans (h.masked.mono (by omega))
      parse := h.parse
      queued := by
        rw [row, col]
        exact h.queued.append_one rfl rfl wide
      onGrid := fun _ => drawn.symm.onGrid onGrid
      insert := fun _ => sameInsert.trans insert
      room := fun _ => by
        rw [total, col, cols]
        omega }

theorem ground_of_live {p p'} (same : p.live = p'.live) (ground : Ground p) : Ground p' := by
  have state := live_state p'
  rw [← same, live_of_ground ground] at state
  have settled : p'.live = {} := by rw [← same, live_of_ground ground]
  refine ⟨state.symm, ?_⟩
  simp only [VtParse.live, ← state] at settled
  exact congrArg VtParse.utf8Need settled

theorem confirmed (h : Hidden s) (data : Bytes) :
    Masked (pendingWidth s.pred.pending) (predictConfirm s.pred s.emu.vt data).2 s.emu.vt :=
  masked_predictConfirm (h.queued.inMask le_rfl le_rfl) data

theorem output_settled (h : Hidden s) (none : s.pred.pending = []) (data : Bytes) : Hidden (s.step w (.output data)) := by
  have masked := h.masked
  rw [none] at masked
  have twin : Emu.Twin s.emu s.plain := ⟨masked.twin le_rfl, h.parse⟩
  have fed := twin.feed w data
  simp only [Session.step, predictConfirm_empty none]
  exact {
    masked := Masked.of_twin fed.vt
    parse := fed.parse
    queued := by rw [none]; trivial
    onGrid := fun some => absurd none some
    insert := fun some => absurd none some
    room := fun some => absurd none some }

section
variable (h : Hidden s) (some : s.pred.pending ≠ []) (ground : Ground s.emu.parse)
include h some ground

theorem feed_text (data : Bytes) {text} (prints : ∀ cp ∈ text, Prints w cp)
    (room : s.emu.vt.cursorCol + columns w text ≤ s.emu.vt.buf.cols) :
    ∃ emu plain : Emu,
      Emu.feed w { s.emu with vt := (predictConfirm s.pred s.emu.vt data).2 } (text.flatMap utf8Encode) = emu ∧
      s.plain.feed w (text.flatMap utf8Encode) = plain ∧ Ground emu.parse ∧ Ground plain.parse ∧
      Masked (pendingWidth s.pred.pending - columns w text) emu.vt plain.vt ∧
      s.emu.vt.Advanced (columns w text) emu.vt := by
  have confirmed := h.confirmed data
  obtain ⟨row, col, insert, -, cols⟩ := confirmed.frame
  have emits := emits_text (w := w) text fun cp member => (prints cp member).printable
  obtain ⟨p, ground', fed⟩ := emits.feed
    (e := { s.emu with vt := (predictConfirm s.pred s.emu.vt data).2 }) ground
  obtain ⟨q, plainGround', plainFed⟩ := emits.feed (ground_of_live h.parse ground)
  obtain ⟨masked, advanced⟩ := (confirmed.trans h.masked).printText prints (confirmed.symm.onGrid (h.onGrid some))
    (insert.trans (h.insert some)) (by rw [col, cols]; exact h.room some) (by rw [col, cols]; exact room)
  refine ⟨_, _, fed, plainFed, ground', plainGround', masked, ?_⟩
  exact {
    onGrid := advanced.onGrid
    insert := advanced.insert.trans insert
    row := advanced.row.trans row
    cols := advanced.cols.trans cols
    col_le := col ▸ advanced.col_le
    col_eq := by
      have moved := advanced.col_eq
      rwa [col, cols] at moved }

theorem output_echoes {data} (echoes : Echoes s.pred.pending data) : Hidden (s.step w (.output data)) := by
  obtain ⟨bytes, prints, width⟩ := echoes.text w
  obtain ⟨queued, left⟩ := echoes.queued h.queued
  have nonneg := queued.nonneg
  have room := h.room some
  obtain ⟨emu, plain, fed, plainFed, ground', plainGround, masked, advanced⟩ :=
    h.feed_text some ground data prints (by rw [width]; omega)
  rw [← bytes] at fed plainFed
  rw [width] at masked advanced
  -- what is still pending is behind the cursor, which has not reached the edge
  have behind : s.pred.pending.drop data.length ≠ [] → emu.vt.cursorCol = s.emu.vt.cursorCol + data.length := by
    intro more
    refine advanced.col_eq ?_
    by_contra edge
    exact more (queued.empty_of_width (by omega))
  simp only [Session.step, fed, plainFed]
  exact {
    masked := by
      rw [echoes.pending_drop, left]
      exact masked
    parse := by rw [live_of_ground ground', live_of_ground plainGround]
    queued := by
      rw [echoes.pending_drop, advanced.row]
      by_cases more : s.pred.pending.drop data.length = []
      · rw [more]
        trivial
      · rw [behind more]
        exact queued
    onGrid := fun _ => advanced.onGrid
    insert := fun _ => advanced.insert.trans (h.insert some)
    room := by
      rw [echoes.pending_drop, left, advanced.cols]
      intro more
      rw [behind more]
      omega }

theorem output_overdraws {data} (overdraws : Overdraws w s.emu.vt (pendingWidth s.pred.pending) data) :
    Hidden (s.step w (.output data)) := by
  obtain ⟨text, rest, rfl, prints, covers, room⟩ := overdraws
  have settled := pending_overdrawn prints h.queued covers s.emu.vt rest
  obtain ⟨emu, plain, fed, plainFed, ground', plainGround, masked, -⟩ :=
    h.feed_text some ground (text.flatMap utf8Encode ++ rest) prints room
  have twin : Emu.Twin emu plain :=
    ⟨masked.twin (by omega), by rw [live_of_ground ground', live_of_ground plainGround]⟩
  have later := twin.feed w rest
  simp only [Session.step, Emu.feed_append, fed, plainFed]
  exact {
    masked := Masked.of_twin later.vt
    parse := later.parse
    queued := by rw [settled]; trivial
    onGrid := fun some => absurd settled some
    insert := fun some => absurd settled some
    room := fun some => absurd settled some }

end

theorem step (h : Hidden s) {e} (harmless : Harmless w s e) : Hidden (s.step w e) := by
  cases e with
  | key cp width => exact h.key harmless
  | output data =>
    by_cases none : s.pred.pending = []
    · exact h.output_settled none data
    · obtain ⟨ground, echoes | overdraws⟩ := harmless.resolve_left none
      · exact h.output_echoes none ground echoes
      · exact h.output_overdraws none ground overdraws

end Hidden

/-- **Speculative echo leaves no trace** in a run whose predictions are drawn on the grid and are echoed
or overdrawn by the output that answers them. -/
theorem run_leaves_no_trace (w : WidthTable) (emu : Emu) (echoOff : Bool) (events : List Event)
    (harmless : Along (Session.step w) (Harmless w) (Session.start emu echoOff) events) :
    (events.foldl (Session.step w) (Session.start emu echoOff)).NoTrace :=
  (harmless.invariant (I := Hidden) (fun _ _ hidden ok => hidden.step ok) (Hidden.start emu echoOff)).noTrace

instance (st : VtState) : Decidable st.OnGrid := decidable_of_iff' _ st.onGrid_iff

instance (p : VtParse) : Decidable (Ground p) := decidable_of_iff' _ (ground_iff p)

instance (w : WidthTable) (cp : Nat) : Decidable (Prints w cp) := inferInstanceAs (Decidable (_ ∧ _))

def answeredKeys : List Event := [.key 0x6C 1, .key 0x73 1, .output [0x6C], .output [0x78, 0x0D, 0x0A]]

theorem answeredKeys_no_trace :
    (answeredKeys.foldl (Session.step latestTable) (Session.start (Emu.new 2 4 0) false)).NoTrace := by
  refine run_leaves_no_trace latestTable (Emu.new 2 4 0) false answeredKeys ⟨?_, ?_, ?_, ?_, trivial⟩
  · exact ⟨by decide, by decide +kernel⟩
  · exact ⟨by decide, by decide +kernel⟩
  · refine .inr ⟨by decide +kernel, .inl ?_⟩
    exact ⟨by decide +kernel, by decide +kernel, by decide +kernel, by decide +kernel, trivial⟩
  · refine .inr ⟨by decide +kernel, .inr ⟨[0x78], [0x0D, 0x0A], ?_⟩⟩
    exact ⟨by decide +kernel, by decide +kernel, by decide +kernel, by decide +kernel⟩

theorem moved_leaves_trace : ¬ ([Event.key 0x61 1, .output [0x0D, 0x0A, 0x58]].foldl (Session.step latestTable)
      (Session.start (Emu.new 2 4 0) false)).NoTrace := by
  decide +kernel

end Lumimux.Attach
