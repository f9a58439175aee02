import Lumimux.Lib.Run
import Lumimux.Libwm.Desk
import Lumimux.Vt.Canvas

/-!
# The cells a composite reads

`draw_content` reads as many cells of a row as the window is wide.
-/

namespace Lumimux.Libwm

open Lib Utf8 Vt List

namespace Desk

variable {F : Type}

def Apart (a b : UInt32 × Option Nat) : Prop := a.1 ≠ b.1 ∧ (a.2 = b.2 → a.2 = none)

instance : Std.Symm Apart := ⟨fun _ _ apart => ⟨apart.1.symm, fun same => same.trans (apart.2 same.symm)⟩⟩

def name (win : Window F) : UInt32 × Option Nat := (win.id, win.vt)

def Placed (vts : List Emu) (win : Window F) : Prop := ∀ i, win.vt = some i → i < vts.length

/-- A window is no wider than its terminal. -/
def Fits (vts : List Emu) (win : Window F) : Prop :=
  ∀ i ∈ win.vt, ∃ e ∈ vts[i]?, win.w ≤ e.vt.buf.cols
  deriving Decidable

theorem Fits.placed {vts : List Emu} {win : Window F} (fits : Fits vts win) : Placed vts win := by
  intro i handle
  obtain ⟨e, found, -⟩ := fits i handle
  exact (List.getElem?_eq_some_iff.mp found).1

structure Kept (d : Desk F) : Prop where
  apart : (d.wm.windows.map name).Pairwise Apart
  fits : ∀ win ∈ d.wm.windows, Fits d.vts win

theorem eq_of_apart {wins : List (Window F)} (apart : (wins.map name).Pairwise Apart) {a b : Window F} (left : a ∈ wins)
    (right : b ∈ wins) (same : a.id = b.id ∨ (a.vt = b.vt ∧ a.vt ≠ none)) : a = b := by
  have symm : Std.Symm fun a b : Window F => Apart (name a) (name b) := ⟨fun _ _ => symm_of Apart⟩
  by_contra differ
  obtain ⟨ids, terminals⟩ := (pairwise_map.mp apart).forall left right differ
  rcases same with id | ⟨vt, real⟩
  · exact ids id
  · exact real (terminals vt)

theorem resize_cols (vt : VtState) (rows cols : Nat) : (vt.resize rows cols).buf.cols = cols := by
  unfold VtState.resize VtState.cursorClamp VtState.buf VtState.target
  cases vt.active with
  | primary => rfl
  | alt => cases vt.alt <;> rfl
  | scrollback => cases vt.scrollback <;> rfl

theorem sync_wm (d : Desk F) (id : UInt32) : (d.sync id).wm = d.wm := by
  unfold sync
  split <;> rfl

theorem sync_cases (d : Desk F) (id : UInt32) : (d.sync id = d ∧ ∀ win, d.wm.wmFind id = some win → win.vt = none) ∨
      ∃ win i, d.wm.wmFind id = some win ∧ win.vt = some i ∧
        d.sync id = { d with vts := d.vts.modify i fun e => { e with vt := e.vt.resize win.h.toNat win.w.toNat } } := by
  unfold sync
  cases found : d.wm.wmFind id with
  | none => exact .inl ⟨rfl, fun win none => by cases none⟩
  | some win =>
    cases handle : win.vt with
    | none =>
      refine .inl ⟨by simp [handle], fun other same => ?_⟩
      obtain rfl := Option.some.inj same
      exact handle
    | some i => exact .inr ⟨win, i, rfl, handle, by simp [handle]⟩

theorem sync_fits {d : Desk F} (apart : (d.wm.windows.map name).Pairwise Apart) (id : UInt32) {win : Window F}
    (member : win ∈ d.wm.windows) (placed : Placed d.vts win) (holds : Fits d.vts win ∨ win.id = id) : Fits (d.sync id).vts win := by
  rcases sync_cases d id with ⟨same, free⟩ | ⟨found, i, isFound, handle, new⟩
  · rw [same]
    rcases holds with fits | here
    · exact fits
    · -- the window found by the id is this one, and it has no terminal
      cases found : d.wm.wmFind id with
      | none => exact absurd here (by simpa using List.find?_eq_none.mp found win member)
      | some other =>
        obtain ⟨xs, zs, split, isId, -⟩ := Wm.split_of_wmFind found
        obtain rfl := eq_of_apart apart member (split ▸ mem_append_right xs mem_cons_self) (.inl (here.trans isId.symm))
        intro i handle
        rw [free win found] at handle
        cases handle
  · obtain ⟨xs, zs, split, isId, -⟩ := Wm.split_of_wmFind isFound
    have foundMember : found ∈ d.wm.windows := split ▸ mem_append_right xs mem_cons_self
    rw [new]
    intro j own
    dsimp only
    by_cases same : i = j
    · subst same
      obtain rfl := eq_of_apart apart member foundMember (.inr ⟨own.trans handle.symm, by rw [own]; exact Option.some_ne_none i⟩)
      have inside : i < d.vts.length := placed i own
      refine ⟨{ d.vts[i] with vt := d.vts[i].vt.resize win.h.toNat win.w.toNat }, ?_, ?_⟩
      · rw [getElem?_modify_eq, getElem?_eq_getElem inside]
        rfl
      · rw [resize_cols]
        exact Int.self_le_toNat _
    · rcases holds with fits | here
      · obtain ⟨e, known, room⟩ := fits j own
        refine ⟨e, ?_, room⟩
        rw [getElem?_modify, known]
        simp [same]
      · obtain rfl := eq_of_apart apart member foundMember (.inl (here.trans isId.symm))
        exact absurd (Option.some.inj (handle.symm.trans own)) same

theorem length_sync (d : Desk F) (id : UInt32) : (d.sync id).vts.length = d.vts.length := by
  unfold sync
  split
  · rfl
  · rw [length_modify]

theorem syncs_fits {ids : List UInt32} {d : Desk F} (apart : (d.wm.windows.map name).Pairwise Apart)
    (placed : ∀ win ∈ d.wm.windows, Placed d.vts win) (holds : ∀ win ∈ d.wm.windows, Fits d.vts win ∨ win.id ∈ ids) :
    (ids.foldl sync d).wm = d.wm ∧ ∀ win ∈ d.wm.windows, Fits (ids.foldl sync d).vts win := by
  induction ids generalizing d with
  | nil => exact ⟨rfl, fun win member => (holds win member).resolve_right not_mem_nil⟩
  | cons id ids ih =>
    have same := sync_wm d id
    rw [← same] at apart placed holds
    have next := @ih (d.sync id) apart (fun win member => ?_) (fun win member => ?_)
    · rw [same] at next
      exact next
    · intro i handle
      rw [length_sync]
      exact placed win member i handle
    · rw [same] at apart placed holds member
      rcases holds win member with fits | later
      · exact .inl (sync_fits apart id member fits.placed (.inl fits))
      · rcases mem_cons.mp later with here | rest
        · exact .inl (sync_fits apart id member (placed win member) (.inr here))
        · exact .inr rest

def dragColumn : Call F → Option Int
  | .mouseDrag _ col => some col
  | _ => none

def newWindow : Call F → Option (Nat × Int)
  | .add _ (some i) _ _ w _ => some (i, w)
  | _ => none

/-- A step of a resize drag makes no window wider than its terminal, and a new window has a terminal of its own and at
most its width. -/
def CallFollows (d : Desk F) (c : Call F) : Prop :=
  (d.wm.drag = .resizing → ∀ col ∈ dragColumn c, ∀ win ∈ d.wm.wmFind d.wm.dragId, Fits d.vts
    { win with w := (Wm.dragged d.wm.edgeLeft d.wm.origX d.wm.origW win.x (col - d.wm.anchorCol) wmMinWidth).2 }) ∧
    ∀ new ∈ newWindow c, (∃ e ∈ d.vts[new.1]?, new.2 ≤ e.vt.buf.cols) ∧ ∀ win ∈ d.wm.windows, win.vt ≠ some new.1
  deriving Decidable

/-- The step keeps each window as narrow as its terminal. -/
def Follows (w : WidthTable) (d : Desk F) : DeskOp F → Prop
  | .call c => d.CallFollows c
  -- output does not change the size of a terminal
  | .feed i bytes => ∀ e ∈ d.vts[i]?, (e.feed w bytes).vt.buf.cols = e.vt.buf.cols
  | .composite _ _ => True

instance (w : WidthTable) (d : Desk F) (op : DeskOp F) : Decidable (d.Follows w op) := by
  cases op <;> unfold Follows <;> infer_instance

structure Behind (vts : List Emu) (ids : List UInt32) (wins : List (Window F)) : Prop where
  apart : (wins.map name).Pairwise Apart
  each : ∀ win ∈ wins, Placed vts win ∧ (Fits vts win ∨ win.id ∈ ids)

def extent (win : Window F) : (UInt32 × Option Nat) × Int := (name win, win.w)

theorem fits_congr {vts : List Emu} {a b : Window F} (same : extent a = extent b) (fits : Fits vts a) : Fits vts b := by
  obtain ⟨names, width⟩ := Prod.mk.inj same
  intro i handle
  obtain ⟨e, found, room⟩ := fits i ((congrArg Prod.snd names).trans handle)
  exact ⟨e, found, width ▸ room⟩

section
variable {d : Desk F} (kept : d.Kept)
include kept

theorem Kept.steady {wins : List (Window F)} (same : wins.map extent = d.wm.windows.map extent)
    (ids : List UInt32) : Behind d.vts ids wins := by
  have names : wins.map name = d.wm.windows.map name := by
    have first := congrArg (List.map Prod.fst) same
    rwa [map_map, map_map] at first
  refine ⟨names ▸ kept.apart, fun win member => ?_⟩
  have extents : extent win ∈ d.wm.windows.map extent := same ▸ mem_map_of_mem member
  obtain ⟨old, inside, alike⟩ := mem_map.mp extents
  have fits := fits_congr alike (kept.fits old inside)
  exact ⟨fits.placed, .inl fits⟩

theorem Kept.onWindow {id : UInt32} {f : Window F → Window F} (names : ∀ win, name (f win) = name win)
    {ids : List UInt32} (changed : ∀ win, d.wm.wmFind id = some win → Fits d.vts (f win) ∨ id ∈ ids) :
    Behind d.vts ids (d.wm.onWindow id f).windows := by
  refine ⟨by rw [Wm.onWindow_map name names]; exact kept.apart, fun win member => ?_⟩
  rcases Wm.mem_onWindow member with same | ⟨old, found, rfl⟩
  · exact ⟨(kept.fits win same).placed, .inl (kept.fits win same)⟩
  · have handle : (f old).vt = old.vt := congrArg Prod.snd (names old)
    have ids : (f old).id = id := (congrArg Prod.fst (names old)).trans (Wm.id_of_wmFind found)
    refine ⟨fun i own => (kept.fits old (Wm.mem_of_wmFind found)).placed i (handle ▸ own), ?_⟩
    rw [ids]
    exact changed old found

theorem Kept.add {win : Window F} (fresh : d.wm.wmFind win.id = none)
    (own : ∀ i, win.vt = some i → (∃ e ∈ d.vts[i]?, win.w ≤ e.vt.buf.cols) ∧ ∀ other ∈ d.wm.windows, other.vt ≠ some i)
    (ids : List UInt32) : Behind d.vts ids (d.wm.windows ++ [win]) := by
  have newId : ∀ other ∈ d.wm.windows, other.id ≠ win.id := by
    intro other member
    simpa using List.find?_eq_none.mp fresh other member
  constructor
  · rw [map_append, pairwise_append]
    refine ⟨kept.apart, pairwise_singleton _ _, fun a old b new => ?_⟩
    obtain ⟨other, member, rfl⟩ := mem_map.mp old
    obtain rfl := mem_singleton.mp new
    refine ⟨newId other member, fun same => ?_⟩
    cases handle : win.vt with
    | none => exact same.trans handle
    | some i => exact absurd (same.trans handle) ((own i handle).2 other member)
  · intro other member
    rcases mem_append.mp member with old | new
    · exact ⟨(kept.fits other old).placed, .inl (kept.fits other old)⟩
    · have fits : Fits d.vts win := fun i handle => (own i handle).1
      rw [mem_singleton.mp new]
      exact ⟨fits.placed, .inl fits⟩

theorem Kept.remove (id : UInt32) (ids : List UInt32) : Behind d.vts ids (d.wm.wmRemove id).windows := by
  unfold Wm.wmRemove
  split
  · exact kept.steady rfl ids
  · rename_i i found
    obtain ⟨xs, win, zs, split, rfl, -⟩ := split_of_findIdx found
    have perm := swapRemove_perm xs win zs
    have apart := kept.apart
    dsimp only
    rw [split] at apart ⊢
    constructor
    · refine ((perm.map name).pairwise_iff fun {_ _} => symm_of Apart).mpr ?_
      exact apart.sublist (((sublist_cons_self win zs).append_left xs).map name)
    · intro other member
      have old : other ∈ d.wm.windows := by
        rw [split]
        exact ((sublist_cons_self win zs).append_left xs).subset (perm.mem_iff.mp member)
      exact ⟨(kept.fits other old).placed, .inl (kept.fits other old)⟩

theorem Kept.forgetVt (vt : Nat) (ids : List UInt32) : Behind d.vts ids (d.wm.wmForgetVt vt).windows := by
  constructor
  · have pairs := pairwise_map.mp kept.apart
    rw [Wm.wmForgetVt, map_map, pairwise_map]
    refine pairs.imp fun {a b} apart => ?_
    simp only [Function.comp_apply, name]
    split <;> split <;> refine ⟨apart.1, ?_⟩
    · exact fun _ => rfl
    · exact fun _ => rfl
    · exact fun none => none
    · exact apart.2
  · intro win member
    obtain ⟨old, inside, rfl⟩ := mem_map.mp member
    have fits := kept.fits old inside
    have same : Fits d.vts (if old.vt = some vt then { old with vt := none } else old) := by
      split
      · exact fun i none => by cases none
      · exact fits
    exact ⟨same.placed, .inl same⟩

end

theorem call_behind [Arith F] {d : Desk F} (kept : d.Kept) {c} (follows : d.CallFollows c) :
    Behind d.vts (followers d.wm c) (d.wm.call c).windows := by
  have inPlace : ∀ (id : UInt32) (f : Window F → Window F), (∀ win, extent (f win) = extent win) → ∀ ids,
      Behind d.vts ids (d.wm.onWindow id f).windows :=
    fun id f same ids => kept.steady (Wm.onWindow_map extent same d.wm id) ids
  have focused : ∀ id, (d.wm.wmFocus id).windows.map extent = d.wm.windows.map extent :=
    Wm.wmFocus_map extent (fun _ _ => rfl) (fun _ _ => rfl) d.wm
  cases c with
  | add id vt x y width height =>
    rw [Wm.call, Wm.wmAdd]
    split
    · exact kept.steady rfl _
    · split
      · exact kept.steady rfl _
      · rename_i fresh
        refine kept.add (Option.not_isSome_iff_eq_none.mp fresh) (fun i handle => follows.2 (i, width) ?_) _
        rw [show vt = some i from handle]
        rfl
  | remove id => exact kept.remove id _
  | forgetVt vt => exact kept.forgetVt vt _
  | focus id => exact kept.steady (focused id) _
  | raise id =>
    refine kept.steady ?_ _
    rw [Wm.call, Wm.wmRaise]
    split
    · exact Wm.setWindow_map extent (by intro; rfl) d.wm id
    · rfl
  | move id | setTitle id | setFlags id | setTheme id | setScroll id | minimize id | unminimize id =>
      exact inPlace id _ (by intro; rfl) _
  | toggleMaximize id =>
    rw [Wm.call, Wm.wmToggleMaximize]
    split
    · exact kept.steady rfl _
    · split
      · exact kept.onWindow (by intro; rfl) fun _ _ => .inr mem_cons_self
      · exact kept.onWindow (by intro; rfl) fun _ _ => .inr mem_cons_self
  | arrangeGrid =>
    rw [Wm.call, Wm.wmArrangeGrid]
    split
    · exact kept.steady rfl _
    · refine ⟨by rw [Wm.placeAll_map name fun _ _ => rfl]; exact kept.apart, fun win member => ?_⟩
      rcases Wm.mem_placeAll member with same | ⟨old, inside, shown, j, rfl⟩
      · exact ⟨(kept.fits win same).placed, .inl (kept.fits win same)⟩
      · have listed : old.id ∈ followers d.wm .arrangeGrid :=
          mem_map_of_mem (mem_filter.mpr ⟨inside, by rw [shown]; rfl⟩)
        exact ⟨(kept.fits old inside).placed, .inr listed⟩
  | mousePress row col =>
    refine kept.steady ?_ _
    rw [Wm.call, Wm.wmMousePress]
    split
    · rfl
    · dsimp only
      split <;> exact focused _
  | mouseDrag row col =>
    rw [Wm.call, Wm.wmMouseDrag]
    split
    · exact kept.steady rfl _
    · exact kept.steady rfl _
    · dsimp only
      split
      · exact kept.steady rfl _
      · exact inPlace _ _ (by intro; rfl) _
    · rename_i win resizing found
      dsimp only
      split
      · exact kept.steady rfl _
      · refine kept.onWindow (by intro; rfl) fun other same => .inl ?_
        obtain rfl := Option.some.inj (found.symm.trans same)
        exact follows.1 resizing col rfl win found
    · dsimp only
      split
      · exact kept.steady rfl _
      · exact inPlace _ _ (by intro; rfl) _
  | mouseRelease =>
    refine kept.steady ?_ _
    rw [Wm.call, Wm.wmMouseRelease]
    split <;> rfl
  | resize | invalidate => exact kept.steady rfl _

theorem seen_cols (h : Int) (vt : VtState) : (seen h vt).buf.cols = vt.buf.cols := by
  rw [seen, VtState.modifyBuf, VtState.buf_setBuf]

theorem clearFlags_fits {vts : List Emu} {win : Window F} (wm : Wm F) (fits : Fits vts win) : Fits (clearFlags wm vts) win := by
  unfold clearFlags
  induction wm.paintOrder generalizing vts with
  | nil => exact fits
  | cons first rest ih =>
    rw [foldl_cons]
    refine ih ?_
    split
    · exact fits
    · intro i handle
      obtain ⟨e, found, room⟩ := fits i handle
      rename_i j _
      by_cases same : j = i
      · subst same
        refine ⟨{ e with vt := seen first.h e.vt }, ?_, by rw [seen_cols]; exact room⟩
        rw [getElem?_modify_eq, found]
        rfl
      · refine ⟨e, ?_, room⟩
        rw [getElem?_modify, found]
        simp [same]

theorem Kept.readsInside {d : Desk F} (kept : d.Kept) : d.ReadsInside := by
  intro p member
  unfold reads at member
  split at member
  · cases member
  · obtain ⟨win, painted, read⟩ := mem_flatMap.mp member
    have shown : win ∈ d.wm.windows := (mem_filter.mp ((perm_insertionSort _ _).mem_iff.mp painted)).1
    cases handle : win.vt with
    | none => simp [Window.terminal, handle] at read
    | some i =>
      obtain ⟨e, found, room⟩ := kept.fits win shown i handle
      rw [Option.mem_def] at found
      simp only [Window.terminal, handle, Option.bind_some, found, Option.map_some, Option.getD_some] at read
      obtain ⟨c, inside, rfl⟩ := mem_map.mp read
      obtain ⟨row, -, column⟩ := mem_flatMap.mp inside
      obtain ⟨low, high⟩ := mem_intRange.mp (mem_filter.mp column).1
      exact ⟨low, by dsimp only; omega⟩

section
variable [Arith F] (w : WidthTable)

theorem Kept.step {d : Desk F} (kept : d.Kept) {op} (follows : d.Follows w op) : (d.step followers w op).Kept := by
  cases op with
  | call c =>
    have behind := call_behind kept follows
    obtain ⟨same, fits⟩ := @syncs_fits F (followers d.wm c) { d with wm := d.wm.call c } behind.apart
      (fun win member => (behind.each win member).1) fun win member => (behind.each win member).2
    refine ⟨?_, ?_⟩
    · rw [Desk.step, same]
      exact behind.apart
    · rw [Desk.step, same]
      exact fits
  | feed i bytes =>
    refine ⟨kept.apart, fun win member j handle => ?_⟩
    obtain ⟨e, found, room⟩ := kept.fits win member j handle
    rw [Desk.step, getElem?_modify, found]
    by_cases here : i = j
    · subst here
      exact ⟨e.feed w bytes, by simp, (follows e found).symm ▸ room⟩
    · exact ⟨e, by simp [here], room⟩
  | composite theme wild =>
    unfold Desk.step wmComposite
    dsimp only
    split
    · exact ⟨kept.apart, kept.fits⟩
    · exact ⟨kept.apart, fun win member => clearFlags_fits d.wm (kept.fits win member)⟩

/-- **A composite reads only cells that exist**, as long as no drag makes a window wider than its terminal. -/
theorem run_readsInside {F : Type} [Arith F] {w : WidthTable} {rows cols : Nat} {vts : List Emu} {ops : List (DeskOp F)}
    (follows : Along (step followers w) (Follows w) ⟨wmNew F rows cols, vts, none⟩ ops) (n : Nat) :
    ((ops.take n).foldl (step followers w) ⟨wmNew F rows cols, vts, none⟩).ReadsInside := by
  have start : (⟨wmNew F rows cols, vts, none⟩ : Desk F).Kept := ⟨.nil, fun win none => absurd none not_mem_nil⟩
  rw [← take_append_drop n ops] at follows
  exact (Along.invariant (fun desk op kept step => kept.step w step) start follows.of_append).readsInside

/-- Dragging the lower right corner of a window of 10 columns to a column. -/
def cornerDragged (col : Int) : List (DeskOp Int) :=
  [.call (.add 1 (some 0) 2 2 10 4), .call (.mousePress 6 12), .call (.mouseDrag 6 col),
    .composite Theme.ascii fun _ _ _ => Cell.clear]

def oneTerminal : Desk Int := ⟨wmNew Int 24 80, [Emu.new 4 10 0], none⟩

theorem inwards_readsInside : Along (step followers latestTable) (Follows latestTable) oneTerminal (cornerDragged 10) ∧
      ((cornerDragged 10).take 3 |>.foldl (step followers latestTable) oneTerminal).ReadsInside ∧
      ((cornerDragged 10).take 3 |>.foldl (step followers latestTable) oneTerminal).reads.length = 32 :=
  have follows : Along (step followers latestTable) (Follows latestTable) oneTerminal (cornerDragged 10) := by
    decide +kernel
  ⟨follows, run_readsInside follows 3, by decide +kernel⟩

theorem outwards_reads_behind :
    ¬ ((cornerDragged 20).take 3 |>.foldl (step followers latestTable) oneTerminal).ReadsInside := by
  decide +kernel

end

end Desk

end Lumimux.Libwm
