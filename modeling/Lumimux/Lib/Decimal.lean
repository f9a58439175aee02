import Mathlib.Tactic

/-!
# Decimal text

The ASCII text of a number is read back, also by a reader whose accumulator is limited (`decimal_read`).
-/

namespace Lumimux

abbrev Bytes := List UInt8

end Lumimux

namespace Lumimux.Lib
open List

def ascii (s : String) : Bytes :=
  s.toList.map fun c => UInt8.ofNat c.toNat

def digitByte (d : Nat) : UInt8 :=
  UInt8.ofNat (48 + d)

def decimalLoop : Nat → Nat → Bytes → Bytes
  | 0, _, acc => acc
  | fuel + 1, n, acc => if n = 0 then acc else decimalLoop fuel (n / 10) (digitByte (n % 10) :: acc)

/-- The digits of a number. -/
def decimal (n : Nat) : Bytes :=
  if n = 0 then [digitByte 0] else decimalLoop n n []

theorem digitByte_toNat {d} (h : d < 10) : (digitByte d).toNat = 48 + d := by
  simp only [digitByte, UInt8.toNat_ofNat']
  omega

theorem decimalLoop_append (fuel n : Nat) (acc : Bytes) : decimalLoop fuel n acc = decimalLoop fuel n [] ++ acc := by
  induction fuel generalizing n acc with
  | zero => rfl
  | succ fuel ih =>
    unfold decimalLoop
    split
    · rfl
    · rw [ih _ (_ :: acc), ih _ [_]]
      simp

theorem decimalLoop_fuel {fuel n} (h : n ≤ fuel) (acc : Bytes) : decimalLoop fuel n acc = decimalLoop n n acc := by
  induction n using Nat.strongRecOn generalizing fuel acc with
  | ind n ih =>
    cases n with
    | zero => cases fuel <;> simp [decimalLoop]
    | succ m =>
      obtain ⟨k, rfl⟩ : ∃ k, fuel = k + 1 := ⟨fuel - 1, by omega⟩
      have small : (m + 1) / 10 < m + 1 := by omega
      simp only [decimalLoop]
      rw [ih _ small (by omega), ← ih _ small (show (m + 1) / 10 ≤ m by omega)]

theorem decimal_of_lt {n} (h : n < 10) : decimal n = [digitByte n] := by
  interval_cases n <;> rfl

/-- **The induction rule**: the text of `n` is the text of `n / 10` and one more digit. -/
theorem decimal_snoc {n} (h : 10 ≤ n) : decimal n = decimal (n / 10) ++ [digitByte (n % 10)] := by
  have nonzero : n ≠ 0 := by omega
  have quotient : n / 10 ≠ 0 := by omega
  obtain ⟨m, rfl⟩ : ∃ m, n = m + 1 := ⟨n - 1, by omega⟩
  simp only [decimal, nonzero, quotient, if_false]
  rw [decimalLoop, if_neg nonzero, decimalLoop_append,
    decimalLoop_fuel (show (m + 1) / 10 ≤ m by omega)]

theorem decimal_digits (n : Nat) : ∀ b ∈ decimal n, ∃ d, d < 10 ∧ b = digitByte d := by
  induction n using Nat.strongRecOn with
  | ind n ih =>
    intro b member
    by_cases small : n < 10
    · rw [decimal_of_lt small, mem_singleton] at member
      exact ⟨n, small, member⟩
    · rw [decimal_snoc (by omega), mem_append, mem_singleton] at member
      rcases member with earlier | last
      · exact ih (n / 10) (by omega) b earlier
      · exact ⟨n % 10, by omega, last⟩

theorem length_decimal_le {k n} (small : n < 10 ^ k) (pos : 0 < k) : (decimal n).length ≤ k := by
  induction k generalizing n with
  | zero => omega
  | succ k ih =>
    by_cases single : n < 10
    · rw [decimal_of_lt single, length_singleton]
      omega
    · rw [decimal_snoc (by omega), length_append, length_singleton]
      have quotient : n / 10 < 10 ^ k := by
        rw [pow_succ] at small
        omega
      have more : 0 < k := by
        rcases Nat.eq_zero_or_pos k with rfl | more
        · simp at small
          omega
        · exact more
      exact Nat.add_le_add_right (ih quotient more) 1

theorem decimal_ne_nil (n : Nat) : decimal n ≠ [] := by
  by_cases small : n < 10
  · simp [decimal_of_lt small]
  · simp [decimal_snoc (show 10 ≤ n by omega)]

def readDigit (limit : Option Nat) (acc : Nat) (b : UInt8) : Nat :=
  if limit.all (acc < ·) then acc * 10 + (b.toNat - 48) else acc

/-- **Reading the text back**, under any limit that the quotient does not reach. -/
theorem decimal_read {limit n} (h : limit.all (n / 10 < ·) = true) : (decimal n).foldl (readDigit limit) 0 = n := by
  induction n using Nat.strongRecOn with
  | ind n ih =>
    by_cases small : n < 10
    · have low : limit.all (0 < ·) = true := by
        rw [show n / 10 = 0 by omega] at h
        exact h
      simp [decimal_of_lt small, readDigit, digitByte_toNat small, low]
    · have lower : limit.all (n / 10 / 10 < ·) = true := by
        cases limit with
        | none => rfl
        | some limit =>
          simp only [Option.all_some, decide_eq_true_eq] at h ⊢
          omega
      have digit : (digitByte (n % 10)).toNat = 48 + n % 10 := digitByte_toNat (by omega)
      rw [decimal_snoc (by omega), foldl_append, ih (n / 10) (by omega) lower]
      simp only [foldl_cons, foldl_nil, readDigit, h, if_true, digit]
      omega

theorem decimal_injective : Function.Injective decimal := by
  intro m n same
  rw [← @decimal_read none m rfl, same, decimal_read rfl]

end Lumimux.Lib
