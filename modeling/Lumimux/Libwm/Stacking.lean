import Lumimux.Lib.Topmost
import Lumimux.Libwm.Calls
import Lumimux.Libwm.Paint

/-!
# The window on top

`wm_hit_test` searches for the highest `z`, `wm_composite` sorts by it.
-/

namespace Lumimux.Libwm

open Lib Utf8 Vt List

/-- How a call can change the stacking numbers. -/
inductive Restacks (zs : List Int) (next : Int) : List Int → Int → Prop
  | kept : Restacks zs next zs next
  | pushed : Restacks zs next (zs ++ [next]) (next + 1)
  | raised {xs ys : List Int} {z : Int} (split : zs = xs ++ z :: ys) : Restacks zs next (xs ++ next :: ys) (next + 1)
  | removed {xs ys zs' : List Int} {z : Int} (split : zs = xs ++ z :: ys) (rest : zs'.Perm (xs ++ ys)) : Restacks zs next zs' next

structure Stacked (zs : List Int) (next : Int) : Prop where
  low : 0 ≤ next
  each : ∀ z ∈ zs, 0 ≤ z ∧ z < next
  distinct : zs.Nodup

theorem Stacked.restacks {zs zs' next next'} (stacked : Stacked zs next) (step : Restacks zs next zs' next') :
    Stacked zs' next' := by
  obtain ⟨low, each, distinct⟩ := stacked
  have fresh : next ∉ zs := fun member => absurd (each next member).2 (lt_irrefl next)
  cases step with
  | kept => exact ⟨low, each, distinct⟩
  | pushed =>
    refine ⟨by omega, fun z member => ?_, nodup_append.mpr ⟨distinct, nodup_singleton next, ?_⟩⟩
    · rcases mem_append.mp member with old | new
      · have := each z old
        omega
      · rw [mem_singleton.mp new]
        omega
    · rintro z old _ new rfl
      exact fresh (mem_singleton.mp new ▸ old)
  | raised split =>
    rename_i xs ys z
    subst split
    have others : ∀ y ∈ xs ++ ys, 0 ≤ y ∧ y < next := by
      intro y member
      exact each y ((sublist_cons_self z ys).append_left xs |>.subset member)
    have apart : (xs ++ ys).Nodup := distinct.sublist ((sublist_cons_self z ys).append_left xs)
    refine ⟨by omega, fun y member => ?_, nodup_middle.mpr (nodup_cons.mpr ⟨fun old => ?_, apart⟩)⟩
    · rcases mem_cons.mp (perm_middle.mem_iff.mp member) with rfl | old
      · omega
      · have := others y old
        omega
    · exact absurd (others next old).2 (lt_irrefl next)
  | removed split rest =>
    rename_i xs ys z
    subst split
    have sub := (sublist_cons_self z ys).append_left xs
    refine ⟨low, fun y member => each y (sub.subset (rest.mem_iff.mp member)), ?_⟩
    exact rest.nodup_iff.mpr (distinct.sublist sub)

namespace Wm

variable {F : Type}

def zs (wm : Wm F) : List Int := wm.windows.map Window.z

section
variable (wm : Wm F) (id : UInt32)

theorem setWindow_nextZ (f : Window F → Window F) : (wm.setWindow id f).nextZ = wm.nextZ := by
  unfold setWindow
  split <;> rfl

theorem onWindow_restacks {f : Window F → Window F} (same : ∀ win, (f win).z = win.z) :
    Restacks wm.zs wm.nextZ (wm.onWindow id f).zs (wm.onWindow id f).nextZ := by
  have zs : (wm.onWindow id f).zs = wm.zs := onWindow_map Window.z same wm id
  have next : (wm.onWindow id f).nextZ = wm.nextZ := by
    unfold onWindow
    split
    · exact setWindow_nextZ wm id f
    · rfl
  rw [zs, next]
  exact .kept

theorem wmRaise_restacks : Restacks wm.zs wm.nextZ (wm.wmRaise id).zs (wm.wmRaise id).nextZ := by
  unfold wmRaise
  split
  · rename_i there
    rcases setWindow_cases wm id (fun win => { win with z := wm.nextZ }) with ⟨none, -⟩ | ⟨xs, win, ys, -, -, split, new⟩
    · rw [none] at there
      cases there
    · have old : wm.zs = xs.map Window.z ++ win.z :: ys.map Window.z := by
        rw [zs, split, map_append, map_cons]
      have restacks := @Restacks.raised _ wm.nextZ _ _ _ old
      rw [new]
      simpa only [zs, map_append, map_cons] using restacks
  · exact .kept

theorem wmFocus_restacks : Restacks wm.zs wm.nextZ (wm.wmFocus id).zs (wm.wmFocus id).nextZ := by
  have marked := wmRaise_restacks { wm with windows := wm.windows.map fun win => { win with focused := win.id = id } } id
  have same : zs { wm with windows := wm.windows.map fun win => { win with focused := win.id = id } } = wm.zs := by
    rw [zs, map_map]
    rfl
  rw [same] at marked
  exact marked

end

theorem call_restacks [Arith F] (wm : Wm F) (c : Call F) : Restacks wm.zs wm.nextZ (wm.call c).zs (wm.call c).nextZ := by
  cases c with
  | add id vt x y w h =>
    rw [call, wmAdd]
    split
    · exact .kept
    · split
      · exact .kept
      · have added := @Restacks.pushed wm.zs wm.nextZ
        simpa only [zs, map_append, map_cons, map_nil] using added
  | remove id =>
    rw [call, wmRemove]
    split
    · exact .kept
    · rename_i i found
      obtain ⟨xs, win, ys, split, rfl, -⟩ := split_of_findIdx found
      have old : wm.zs = xs.map Window.z ++ win.z :: ys.map Window.z := by
        rw [zs, split, map_append, map_cons]
      refine .removed old ?_
      rw [zs, split, ← map_append]
      exact (swapRemove_perm xs win ys).map Window.z
  | forgetVt vt =>
    have same : (wm.wmForgetVt vt).zs = wm.zs := by
      rw [zs, wmForgetVt, map_map]
      refine map_congr_left fun win _ => ?_
      rw [Function.comp_apply]
      split <;> rfl
    rw [call, same]
    exact .kept
  | focus id => exact wmFocus_restacks wm id
  | raise id => exact wmRaise_restacks wm id
  | move id | setTitle id | setFlags id | setTheme id | setScroll id | minimize id | unminimize id =>
      exact onWindow_restacks wm id fun _ => rfl
  | toggleMaximize id =>
    rw [call, wmToggleMaximize]
    split
    · exact .kept
    · split
      · exact onWindow_restacks wm id fun _ => rfl
      · exact onWindow_restacks wm id fun _ => rfl
  | arrangeGrid =>
    rw [call, wmArrangeGrid]
    split
    · exact .kept
    · have same : ∀ n, zs { wm with windows := wm.placeAll n 0 wm.windows } = wm.zs :=
        fun n => placeAll_map Window.z (fun _ _ => rfl) 0 wm.windows
      rw [same]
      exact .kept
  | mousePress row col =>
    rw [call, wmMousePress]
    split
    · exact .kept
    · dsimp only
      split <;> exact wmFocus_restacks wm _
  | mouseDrag row col =>
    rw [call, wmMouseDrag]
    split
    · exact .kept
    · exact .kept
    all_goals
      dsimp only
      split
      · exact .kept
      · exact onWindow_restacks wm _ fun _ => rfl
  | mouseRelease =>
    rw [call, wmMouseRelease]
    split <;> exact .kept
  | resize | invalidate => exact .kept

theorem call_nextZ_le [Arith F] (wm : Wm F) (c : Call F) : (wm.call c).nextZ ≤ wm.nextZ + 1 := by
  have restacks := call_restacks wm c
  generalize (wm.call c).zs = zs' at restacks
  generalize (wm.call c).nextZ = next at restacks ⊢
  cases restacks <;> omega

theorem run_nextZ_le [Arith F] (calls : List (Call F)) (wm : Wm F) :
    (calls.foldl call wm).nextZ ≤ wm.nextZ + calls.length := by
  induction calls generalizing wm with
  | nil => exact Int.le_add_of_nonneg_right (Int.natCast_nonneg _)
  | cons c calls ih =>
    have first := call_nextZ_le wm c
    have rest := ih (wm.call c)
    rw [foldl_cons, length_cons]
    omega

def shownAt (row col : Int) (win : Window F) : Bool := !win.minimized && win.framed row col

theorem topmostAt_eq (wm : Wm F) (row col : Int) :
    wm.topmostAt row col = wm.windows.foldl (bestStep (shownAt row col) Window.z (-1)) none := by
  refine foldl_ext _ _ _ fun best win _ => ?_
  rw [bestStep, shownAt]
  cases win.minimized with
  | true => rfl
  | false => rw [Bool.not_false, Bool.true_and, if_neg Bool.false_ne_true]

def paintedAt (wm : Wm F) (row col : Int) : List (Window F) := wm.paintOrder.filter (·.framed row col)

theorem mem_paintedAt (wm : Wm F) (row col : Int) (win : Window F) :
    win ∈ wm.paintedAt row col ↔ win ∈ wm.windows ∧ shownAt row col win = true := by
  rw [paintedAt, mem_filter, paintOrder, (perm_insertionSort _ _).mem_iff, mem_filter, shownAt,
    Bool.and_eq_true_iff, and_assoc]

theorem topmostAt_eq_getLast? {wm : Wm F} (stacked : Stacked wm.zs wm.nextZ) (row col : Int) :
    wm.topmostAt row col = (wm.paintedAt row col).getLast? := by
  rw [topmostAt_eq]
  refine foldl_bestStep_eq_getLast? (fun win member _ => ?_) stacked.distinct ?_ (mem_paintedAt wm row col)
  · have given := stacked.each win.z (mem_map_of_mem member)
    omega
  · exact (pairwise_insertionSort (fun a b : Window F => a.z ≤ b.z) _).sublist filter_sublist

/-- **Clicks go to the window on top**: after any calls the windows have distinct `z` below `next_z`, which counts no further
than the calls; a point hits nothing just when no shown window's frame holds it, and else the window painted last there. -/
theorem run_hits_top {F : Type} [Arith F] (rows cols : Nat) (calls : List (Call F)) :
    let wm := calls.foldl call (wmNew F rows cols)
    wm.zs.Nodup ∧ (∀ z ∈ wm.zs, z < wm.nextZ) ∧ wm.nextZ ≤ calls.length ∧
      ∀ row col, (wm.wmHitTest row col = none ↔ ∀ win ∈ wm.windows, win.minimized = false → win.framed row col = false) ∧
        (wm.wmHitTest row col).map Prod.fst = (wm.paintedAt row col).getLast?.map Window.id := by
  intro wm
  have stacked : Stacked wm.zs wm.nextZ := by
    refine foldlRecOn (motive := fun wm : Wm F => Stacked wm.zs wm.nextZ) calls call ⟨le_refl 0, ?_, nodup_nil⟩
      fun wm stacked c _ => stacked.restacks (call_restacks wm c)
    exact fun z none => absurd none not_mem_nil
  have counted : wm.nextZ ≤ calls.length := by
    have count := run_nextZ_le calls (wmNew F rows cols)
    rwa [show (wmNew F rows cols).nextZ = 0 from rfl, zero_add] at count
  refine ⟨stacked.distinct, fun z member => (stacked.each z member).2, counted, fun row col => ?_⟩
  have hit := topmostAt_eq_getLast? stacked row col
  constructor
  · rw [wmHitTest, Option.map_eq_none_iff, hit, getLast?_eq_none_iff, eq_nil_iff_forall_not_mem]
    simp only [mem_paintedAt, shownAt, not_and, Bool.and_eq_true, Bool.not_eq_true', Bool.not_eq_true]
  · rw [wmHitTest, Option.map_map, hit]
    rfl

end Wm

end Lumimux.Libwm
