import Mathlib.Data.Nat.Init
import Mathlib.Tactic.Common

/-!
# Ranges, shares and row-major grids

The integers of a half-open range in order, a length cut into equal parts where what is left over goes to the first
ones, and positions in a grid stored row after row.
-/

namespace Lumimux.Lib
open List

/-- `start`, `start + 1`, … up to `stop`, without it. -/
def intRange (start stop : Int) : List Int := (range (stop - start).toNat).map fun (i : Nat) => start + i

@[simp] theorem mem_intRange {start stop i : Int} : i ∈ intRange start stop ↔ start ≤ i ∧ i < stop := by
  simp only [intRange, mem_map, mem_range]
  constructor
  · rintro ⟨k, below, rfl⟩
    omega
  · rintro ⟨low, high⟩
    exact ⟨(i - start).toNat, by omega, by omega⟩

theorem pairwise_intRange (start stop : Int) : (intRange start stop).Pairwise (· < ·) :=
  pairwise_map.mpr (pairwise_lt_range.imp fun less => by omega)

theorem index_inj {cols r c r' c' : Int} (low : 0 ≤ c) (high : c < cols) (low' : 0 ≤ c') (high' : c' < cols)
    (same : r * cols + c = r' * cols + c') : r = r' ∧ c = c' := by
  have positive : 0 < cols := by omega
  have rows : (r * cols + c) / cols = (r' * cols + c') / cols := by rw [same]
  rw [Int.mul_add_ediv_right _ _ (by omega), Int.mul_add_ediv_right _ _ (by omega), Int.ediv_eq_zero_of_lt low high,
    Int.ediv_eq_zero_of_lt low' high'] at rows
  obtain rfl : r = r' := by omega
  exact ⟨rfl, by omega⟩

theorem index_nonneg {cols r c : Int} (row : 0 ≤ r) (low : 0 ≤ c) (high : c < cols) : 0 ≤ r * cols + c := by
  have := Int.mul_nonneg row (show 0 ≤ cols by omega)
  omega

/-- Where part `k` begins. -/
def shareStart (size parts k : Nat) : Nat := k * (size / parts) + min k (size % parts)

variable {size parts k j x : Nat}

theorem shareStart_zero (size parts : Nat) : shareStart size parts 0 = 0 := by
  rw [shareStart, Nat.zero_mul, Nat.zero_min]

theorem shareStart_succ (size parts k : Nat) :
    shareStart size parts (k + 1) = shareStart size parts k + (size / parts + if k < size % parts then 1 else 0) := by
  rw [shareStart, shareStart, Nat.succ_mul]
  split <;> omega

theorem shareStart_parts (pos : 0 < parts) : shareStart size parts parts = size := by
  rw [shareStart, Nat.min_eq_right (Nat.le_of_lt (Nat.mod_lt size pos))]
  exact Nat.div_add_mod size parts

theorem shareStart_mono (later : k ≤ j) : shareStart size parts k ≤ shareStart size parts j := by
  induction later with
  | refl => exact Nat.le_refl _
  | step _ ih =>
    rw [shareStart_succ]
    exact Nat.le_trans ih (Nat.le_add_right _ _)

theorem eq_of_mem_shares (low : shareStart size parts k ≤ x) (high : x < shareStart size parts (k + 1))
    (low' : shareStart size parts j ≤ x) (high' : x < shareStart size parts (j + 1)) : k = j := by
  rcases Nat.lt_trichotomy k j with before | same | behind
  · have := @shareStart_mono size parts (k + 1) j before
    omega
  · exact same
  · have := @shareStart_mono size parts (j + 1) k behind
    omega

theorem exists_share (pos : 0 < parts) (inside : x < size) :
    ∃ k < parts, shareStart size parts k ≤ x ∧ x < shareStart size parts (k + 1) := by
  have upTo : ∀ m, x < shareStart size parts m → ∃ k < m, shareStart size parts k ≤ x ∧ x < shareStart size parts (k + 1) := by
    intro m
    induction m with
    | zero =>
      rw [shareStart_zero]
      exact fun none => absurd none (Nat.not_lt_zero x)
    | succ m ih =>
      intro below
      by_cases earlier : x < shareStart size parts m
      · obtain ⟨k, bound, there⟩ := ih earlier
        exact ⟨k, Nat.lt_succ_of_lt bound, there⟩
      · exact ⟨m, Nat.lt_succ_self m, Nat.le_of_not_lt earlier, below⟩
  exact upTo parts (by rwa [shareStart_parts pos])

end Lumimux.Lib
