import Mathlib.Tactic.Common
import Mathlib.Data.List.Basic

/-!
# Rings

A fixed array that is written round and round holds the end of the log of all writes.
-/

namespace Lumimux.Lib
open List

variable {α β : Type*}

def recent (n : Nat) (log : List α) : List α := log.drop (log.length - n)

theorem length_recent (n : Nat) (log : List α) : (recent n log).length = min n log.length := by
  rw [recent, length_drop]
  omega

/-- The ring holds the end of the log. -/
structure RingHolds (slots : List (Option α)) (head len : Nat) (log : List α) : Prop where
  head_eq : 0 < slots.length → head = log.length % slots.length
  len_eq : len = min slots.length log.length
  slot : ∀ j a, log.length ≤ j + slots.length → log[j]? = some a → slots[j % slots.length]? = some (some a)

namespace RingHolds

variable {slots : List (Option α)} {head len : Nat} {log : List α}

theorem start (cap : Nat) : RingHolds (replicate cap (none : Option α)) 0 0 [] where
  head_eq _ := (Nat.zero_mod _).symm
  len_eq := (Nat.min_zero _).symm
  slot j a _ written := by cases written

theorem empty (log : List α) : RingHolds ([] : List (Option α)) head 0 log where
  head_eq some := absurd some (Nat.lt_irrefl 0)
  len_eq := (Nat.zero_min _).symm
  slot j a late written := by
    have inside : j < log.length := List.getElem?_eq_some_iff.mp written |>.1
    exact absurd late (Nat.not_le.mpr inside)

section
variable (h : RingHolds slots head len log)
include h

theorem map (f : α → β) : RingHolds (slots.map (Option.map f)) head len (log.map f) where
  head_eq := by
    rw [length_map, length_map]
    exact h.head_eq
  len_eq := by
    rw [length_map, length_map]
    exact h.len_eq
  slot j b late written := by
    rw [length_map, length_map] at late
    rw [getElem?_map] at written
    obtain ⟨a, held, rfl⟩ := Option.map_eq_some_iff.mp written
    rw [getElem?_map, length_map, h.slot j a late held]
    rfl

theorem push (room : 0 < slots.length) (a : α) :
    RingHolds (slots.set head (some a)) ((head + 1) % slots.length) (if len < slots.length then len + 1 else len)
      (log ++ [a]) where
  head_eq _ := by
    rw [length_set, length_append, h.head_eq room, Nat.mod_add_mod]
    rfl
  len_eq := by
    rw [length_set, length_append, length_singleton, h.len_eq]
    split <;> omega
  slot j b late written := by
    rw [length_set, length_append, length_singleton] at late
    have inside : j < log.length + 1 := by
      have := (List.getElem?_eq_some_iff.mp written).1
      rwa [length_append] at this
    rw [length_set, h.head_eq room]
    rcases Nat.lt_succ_iff_lt_or_eq.mp inside with old | rfl
    · -- an old entry that is still held is not the one whose slot is taken
      have apart : log.length % slots.length ≠ j % slots.length := by
        intro same
        have near : log.length - j < slots.length := by omega
        have : (log.length - j) % slots.length = 0 := Nat.sub_mod_eq_zero_of_mod_eq same
        rw [Nat.mod_eq_of_lt near] at this
        omega
      rw [getElem?_append_left old] at written
      rw [getElem?_set_ne apart]
      exact h.slot j b (by omega) written
    · rw [getElem?_append_right (Nat.le_refl _), Nat.sub_self] at written
      cases written
      exact getElem?_set_self (Nat.mod_lt _ room)

theorem read {i : Nat} (within : i < len) :
    slots[(head + (slots.length - len) + i) % slots.length]? = (recent slots.length log)[i]?.map some := by
  have len_eq := h.len_eq
  have room : 0 < slots.length := by omega
  have place : (head + (slots.length - len) + i) % slots.length = (log.length - slots.length + i) % slots.length := by
    rw [h.head_eq room]
    rcases Nat.le_total slots.length log.length with full | short
    · rw [len_eq, Nat.min_eq_left full, Nat.sub_self, Nat.add_zero, Nat.mod_add_mod]
      have shift : log.length + i = log.length - slots.length + i + slots.length := by omega
      rw [shift, Nat.add_mod_right]
    · rw [len_eq, Nat.min_eq_right short, Nat.add_assoc, Nat.mod_add_mod]
      have shift : log.length + (slots.length - log.length + i) = i + slots.length := by omega
      rw [shift, Nat.add_mod_right, Nat.sub_eq_zero_of_le short, Nat.zero_add]
  rw [place, recent, getElem?_drop]
  have held : log.length - slots.length + i < log.length := by omega
  rw [getElem?_eq_getElem held]
  exact h.slot _ _ (by omega) (getElem?_eq_getElem held)

end

end RingHolds

end Lumimux.Lib
