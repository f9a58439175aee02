import Mathlib.Tactic

/-!
# An arena that moves

A bump allocator hands out strings from one buffer, which moves when it grows.
-/

namespace Lumimux.Lib

inductive Access
  | alloc (n : Nat)
  | read (h : Nat)

def allocs : List Access → Nat
  | [] => 0
  | .alloc _ :: log => allocs log + 1
  | .read _ :: log => allocs log

def aligned (n : Nat) : Nat := (n + 4) / 4 * 4

def handedOut : List Access → Nat
  | [] => 0
  | .alloc n :: log => handedOut log + aligned n
  | .read _ :: log => handedOut log

structure Arena where
  size : Nat
  first : Nat

variable {grow : Nat → Nat → Nat} {capacity n : Nat} {log : List Access}

def arenaAfter (grow : Nat → Nat → Nat) (capacity : Nat) : List Access → Arena
  | [] => ⟨capacity, 0⟩
  | .read _ :: log => arenaAfter grow capacity log
  | .alloc n :: log =>
    let a := arenaAfter grow capacity log
    let need := handedOut log + aligned n
    if need ≤ a.size then a else ⟨grow a.size need, allocs log⟩

/-- No string is read that was handed out before the last move. -/
def Safe (grow : Nat → Nat → Nat) (capacity : Nat) : List Access → Prop
  | [] => True
  | .alloc _ :: log => Safe grow capacity log
  | .read h :: log => (arenaAfter grow capacity log).first ≤ h ∧ Safe grow capacity log

instance decidableSafe : (log : List Access) → Decidable (Safe grow capacity log)
  | [] => inferInstanceAs (Decidable True)
  | .alloc _ :: log => decidableSafe log
  | .read _ :: log => @instDecidableAnd _ _ _ (decidableSafe log)

def Immediate (n : Nat) : List Access → Prop
  | [] => True
  | .alloc _ :: log => Immediate n log
  | .read h :: log => n + allocs log ≤ h + 1 ∧ Immediate n log

theorem first_le (log : List Access) : (arenaAfter grow capacity log).first ≤ allocs log - 1 := by
  induction log with
  | nil => exact le_rfl
  | cons access log ih =>
    cases access with
    | read => exact ih
    | alloc n =>
      simp only [arenaAfter, allocs]
      split_ifs
      · omega
      · exact le_rfl

theorem arenaAfter_of_fits (fits : handedOut log ≤ capacity) : arenaAfter grow capacity log = ⟨capacity, 0⟩ := by
  induction log with
  | nil => rfl
  | cons access log ih =>
    cases access with
    | read => exact ih fits
    | alloc n =>
      simp only [handedOut] at fits
      simp only [arenaAfter, ih (by omega), fits, if_true]

theorem exists_stale {h : Nat} (later : h + 1 < allocs log) : ∃ capacity, h < (arenaAfter grow capacity log).first := by
  induction log with
  | nil => cases later
  | cons access log ih =>
    cases access with
    | read => exact ih later
    | alloc n =>
      refine ⟨handedOut log, ?_⟩
      have full : ¬handedOut log + aligned n ≤ handedOut log := by
        unfold aligned
        omega
      simp only [arenaAfter, arenaAfter_of_fits le_rfl, full, if_false]
      exact Nat.lt_of_succ_lt_succ later

/-- **Reads are safe at every capacity exactly when each is of the string handed out last.** -/
theorem safe_iff_immediate : (∀ capacity, Safe grow capacity log) ↔ Immediate 0 log := by
  induction log with
  | nil => exact ⟨fun _ => trivial, fun _ _ => trivial⟩
  | cons access log ih =>
    cases access with
    | alloc => exact ih
    | read h =>
      simp only [Safe, Immediate, forall_and, ih, Nat.zero_add]
      refine and_congr_left fun _ => ⟨fun fresh => ?_, fun latest capacity => ?_⟩
      · by_contra later
        obtain ⟨capacity, stale⟩ := exists_stale (not_le.mp later)
        exact absurd (fresh capacity) (not_le.mpr stale)
      · have bound : (arenaAfter grow capacity log).first ≤ _ := first_le log
        omega

abbrev Script := Nat → List Access

def Script.andThen (a b : Script) : Script := fun n => b (n + allocs (a n)) ++ a n

theorem allocs_append (newer log : List Access) : allocs (newer ++ log) = allocs newer + allocs log := by
  induction newer with
  | nil => exact (Nat.zero_add _).symm
  | cons access newer ih =>
    cases access with
    | read => exact ih
    | alloc n =>
      simp only [List.cons_append, allocs, ih]
      omega

@[simp] theorem allocs_andThen (a b : Script) : allocs (a.andThen b n) = allocs (b (n + allocs (a n))) + allocs (a n) :=
  allocs_append ..

@[simp] theorem immediate_andThen (a b : Script) :
    Immediate n (a.andThen b n) ↔ Immediate n (a n) ∧ Immediate (n + allocs (a n)) (b (n + allocs (a n))) := by
  unfold Script.andThen
  generalize b _ = newer
  induction newer with
  | nil => exact (and_iff_left trivial).symm
  | cons access newer ih =>
    cases access with
    | alloc => exact ih
    | read h =>
      simp only [List.cons_append, Immediate, ih, allocs_append, Nat.add_assoc, Nat.add_comm (allocs newer)]
      exact and_left_comm

end Lumimux.Lib
