import Lumimux.Lib.Keyed

/-!
# Compact arrays

An array with `count` slots in use; a record leaves by being overwritten with the last one.
-/

namespace Lumimux.Lib
open List Function

variable {α : Type*}

structure Slots (α : Type*) where
  slot : Nat → α
  count : Nat

namespace Slots

def live (s : Slots α) : List α := (range s.count).map s.slot

def push (s : Slots α) (a : α) : Slots α := ⟨Function.update s.slot s.count a, s.count + 1⟩

/-- The last record takes the place of the one that leaves. -/
def vacate (s : Slots α) (i : Nat) (clear : α → α) : Slots α :=
  let marked := Function.update s.slot i (clear (s.slot i))
  ⟨Function.update marked i (marked (s.count - 1)), s.count - 1⟩

section
variable (s : Slots α)

theorem length_live : s.live.length = s.count := by simp [live]

theorem slot_mem_live {i} (used : i < s.count) : s.slot i ∈ s.live :=
  mem_map_of_mem (mem_range.mpr used)

theorem slot_of_split {xs zs a} (split : s.live = xs ++ a :: zs) : xs.length < s.count ∧ s.slot xs.length = a := by
  have used : xs.length < s.count := by
    rw [← length_live, split, length_append, length_cons]
    omega
  have here : s.live[xs.length]? = some (s.slot xs.length) := by simp [live, used]
  rw [split, getElem?_append_right (Nat.le_refl _), Nat.sub_self, getElem?_cons_zero] at here
  exact ⟨used, (Option.some.inj here).symm⟩

theorem live_push (a : α) : (s.push a).live = s.live ++ [a] := by
  have kept : ∀ j ∈ range s.count, (s.push a).slot j = s.slot j := by
    intro j used
    exact update_of_ne (mem_range.mp used).ne _ _
  rw [live, show (s.push a).count = s.count + 1 from rfl, range_succ, map_append, map_congr_left kept]
  simp [live, push]

theorem slot_push_of_ne (a : α) {j} (other : j ≠ s.count) : (s.push a).slot j = s.slot j :=
  update_of_ne other _ _

theorem slot_vacate_of_ne (clear : α → α) {i j} (other : j ≠ i) : (s.vacate i clear).slot j = s.slot j :=
  (update_of_ne other _ _).trans (update_of_ne other _ _)

theorem live_vacate (clear : α → α) {i} (used : i < s.count) : (s.vacate i clear).live = swapRemove s.live i := by
  have last : s.live.getLast? = some (s.slot (s.count - 1)) := by
    rw [live, getLast?_map, getLast?_range, if_neg (by omega)]
    rfl
  rw [swapRemove, last, Option.elim_some]
  apply ext_getElem
  · simp [live, vacate]
  · intro j inside _
    have below : j < s.count - 1 := by simpa [live, vacate] using inside
    simp only [live, getElem_map, getElem_range, getElem_dropLast, getElem_set]
    by_cases same : i = j
    · subst same
      have apart : s.count - 1 ≠ i := by omega
      simp [vacate, apart]
    · rw [if_neg same, slot_vacate_of_ne _ _ (Ne.symm same)]

end

end Slots

end Lumimux.Lib
