import Lumimux.Libwm.Windows

/-!
# Calls of the window manager

The calls as one type: one changes a window in place (`setWindow_cases`), or all of them, or removes one.
-/

namespace Lumimux.Libwm

open Lib Utf8 Vt List

/-- The calls of `wm.h` that change the manager. -/
inductive Call (F : Type)
  | add (id : UInt32) (vt : Option Nat) (x y w h : Int)
  | remove (id : UInt32)
  | forgetVt (vt : Nat)
  | focus (id : UInt32)
  | raise (id : UInt32)
  | move (id : UInt32) (x y : Int)
  | setTitle (id : UInt32) (title : Bytes)
  | setFlags (id flags : UInt32)
  | setTheme (id : UInt32) (theme : Option Theme)
  | setScroll (id : UInt32) (pos len : F)
  | minimize (id : UInt32)
  | unminimize (id : UInt32)
  | toggleMaximize (id : UInt32)
  | arrangeGrid
  | mousePress (row col : Int)
  | mouseDrag (row col : Int)
  | mouseRelease
  | resize (rows cols : Nat)
  | invalidate

namespace Wm

variable {F : Type}

def call [Arith F] (wm : Wm F) : Call F → Wm F
  | .add id vt x y w h => (wm.wmAdd id vt x y w h).1
  | .remove id => wm.wmRemove id
  | .forgetVt vt => wm.wmForgetVt vt
  | .focus id => wm.wmFocus id
  | .raise id => wm.wmRaise id
  | .move id x y => wm.wmMove id x y
  | .setTitle id title => wm.wmSetTitle id title
  | .setFlags id flags => wm.wmSetFlags id flags
  | .setTheme id theme => wm.wmSetTheme id theme
  | .setScroll id pos len => wm.wmSetScroll id pos len
  | .minimize id => wm.wmMinimize id
  | .unminimize id => wm.wmUnminimize id
  | .toggleMaximize id => (wm.wmToggleMaximize id).1
  | .arrangeGrid => wm.wmArrangeGrid.1
  | .mousePress row col => (wm.wmMousePress row col).1
  | .mouseDrag row col => (wm.wmMouseDrag row col).1
  | .mouseRelease => wm.wmMouseRelease.1
  | .resize rows cols => wm.wmResize rows cols
  | .invalidate => wm.wmInvalidate

variable {wm : Wm F} {id : UInt32}

variable {win : Window F} {κ : Type} {f : Window F → Window F}

theorem split_of_wmFind (found : wm.wmFind id = some win) :
    ∃ xs zs, wm.windows = xs ++ win :: zs ∧ win.id = id ∧ wm.windows.findIdx? (·.id = id) = some xs.length := by
  obtain ⟨selected, xs, zs, split, earlier⟩ := List.find?_eq_some_iff_append.mp found
  refine ⟨xs, zs, split, by simpa using selected, ?_⟩
  rw [split, List.findIdx?_append, List.findIdx?_eq_none_iff.mpr (by simpa using earlier), List.findIdx?_cons]
  simp only [selected, if_true, Option.map_some, Option.none_or, Nat.zero_add]

theorem setWindow_cases (wm : Wm F) (id : UInt32) (f : Window F → Window F) : (wm.wmFind id = none ∧ wm.setWindow id f = wm) ∨
      ∃ xs win zs, wm.wmFind id = some win ∧ win.id = id ∧ wm.windows = xs ++ win :: zs ∧
        wm.setWindow id f = { wm with windows := xs ++ f win :: zs } := by
  cases found : wm.wmFind id with
  | none =>
    refine .inl ⟨rfl, ?_⟩
    have absent : wm.windows.findIdx? (·.id = id) = none :=
      List.findIdx?_eq_none_iff.mpr fun win member => by simpa using List.find?_eq_none.mp found win member
    rw [setWindow, absent]
  | some win =>
    obtain ⟨xs, zs, split, same, index⟩ := split_of_wmFind found
    refine .inr ⟨xs, win, zs, rfl, same, split, ?_⟩
    rw [setWindow, index]
    simp only [split, modify_middle]

section
variable (key : Window F → κ) (same : ∀ win, key (f win) = key win) (wm : Wm F) (id : UInt32)
include same

theorem setWindow_map : (wm.setWindow id f).windows.map key = wm.windows.map key := by
  rcases setWindow_cases wm id f with ⟨-, kept⟩ | ⟨xs, win, zs, -, -, split, new⟩
  · rw [kept]
  · rw [new, split, map_append, map_cons, same, ← map_cons, ← map_append]

theorem onWindow_map : (wm.onWindow id f).windows.map key = wm.windows.map key := by
  unfold onWindow
  split
  · exact setWindow_map key same wm id
  · rfl

end

theorem wmFocus_map (key : Window F → κ) (focused : ∀ win b, key { win with focused := b } = key win)
    (raised : ∀ win z, key { win with z := z } = key win) (wm : Wm F) (id : UInt32) :
    (wm.wmFocus id).windows.map key = wm.windows.map key := by
  have marked : (wm.windows.map fun win => { win with focused := win.id = id }).map key = wm.windows.map key := by
    rw [map_map]
    exact map_congr_left fun win _ => focused win _
  unfold wmFocus wmRaise
  dsimp only
  split
  · rw [← marked]
    exact setWindow_map key (fun win => raised win wm.nextZ) { wm with windows := _ } id
  · exact marked

theorem placeAll_map (key : Window F → κ) {n} (same : ∀ i win, key (wm.gridPlace n i win) = key win) (i : Nat)
    (wins : List (Window F)) : (wm.placeAll n i wins).map key = wins.map key := by
  induction wins generalizing i with
  | nil => rfl
  | cons win rest ih =>
    rw [placeAll]
    split
    · rw [map_cons, ih, map_cons]
    · rw [map_cons, same, ih, map_cons]

theorem mem_of_wmFind (found : wm.wmFind id = some win) : win ∈ wm.windows := mem_of_find?_eq_some found

theorem id_of_wmFind (found : wm.wmFind id = some win) : win.id = id := by
  simpa using find?_some found

theorem mem_onWindow (member : win ∈ (wm.onWindow id f).windows) :
    win ∈ wm.windows ∨ ∃ old, wm.wmFind id = some old ∧ win = f old := by
  unfold onWindow at member
  split at member
  · rcases setWindow_cases wm id f with ⟨-, same⟩ | ⟨xs, old, zs, found, -, split, new⟩
    · rw [same] at member
      exact .inl member
    · rw [new] at member
      simp only [mem_append, mem_cons] at member
      rw [split]
      rcases member with front | here | back
      · exact .inl (mem_append_left _ front)
      · exact .inr ⟨old, found, here⟩
      · exact .inl (mem_append_right _ (mem_cons_of_mem _ back))
  · exact .inl member

theorem mem_placeAll {n i wins} (member : win ∈ wm.placeAll n i wins) :
    win ∈ wins ∨ ∃ old ∈ wins, old.minimized = false ∧ ∃ j, win = wm.gridPlace n j old := by
  induction wins generalizing i with
  | nil => exact .inl member
  | cons first rest ih =>
    rw [placeAll] at member
    split at member
    · rcases mem_cons.mp member with rfl | later
      · exact .inl mem_cons_self
      · rcases ih later with kept | ⟨old, inside, shown, place⟩
        · exact .inl (mem_cons_of_mem _ kept)
        · exact .inr ⟨old, mem_cons_of_mem _ inside, shown, place⟩
    · rename_i shown
      rcases mem_cons.mp member with rfl | later
      · exact .inr ⟨first, mem_cons_self, by simpa using shown, i, rfl⟩
      · rcases ih later with kept | ⟨old, inside, shown, place⟩
        · exact .inl (mem_cons_of_mem _ kept)
        · exact .inr ⟨old, mem_cons_of_mem _ inside, shown, place⟩

end Wm

end Lumimux.Libwm
