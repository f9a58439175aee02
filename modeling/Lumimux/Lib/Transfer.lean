import Mathlib.Tactic.Common
import Mathlib.Data.List.Basic

/-!
# Partial transfers

Loops over calls that may be interrupted or move fewer items than asked for.
-/

namespace Lumimux.Lib
open List

variable {α : Type*}

inductive Io
  | interrupted
  | moves (extra : Nat)
  deriving DecidableEq, Repr

def Io.moving : List Io → Nat
  | [] => 0
  | .interrupted :: ios => Io.moving ios
  | .moves _ :: ios => Io.moving ios + 1

/-- Writes until all is written. -/
def putAll : List Io → List α → List α × Option (List Io)
  | ios, [] => ([], some ios)
  | [], _ :: _ => ([], none)
  | .interrupted :: ios, x :: xs => putAll ios (x :: xs)
  | .moves extra :: ios, x :: xs =>
    let rest := putAll ios ((x :: xs).drop (extra + 1))
    ((x :: xs).take (extra + 1) ++ rest.1, rest.2)

inductive Got (α : Type*)
  | all (taken rest : List α) (ios : List Io)
  | ended
  | waiting

def Got.after (taken : List α) : Got α → Got α
  | .all more rest ios => .all (taken ++ more) rest ios
  | .ended => .ended
  | .waiting => .waiting

def getAll : List Io → Nat → List α → Got α
  | ios, 0, stream => .all [] stream ios
  | [], _ + 1, _ => .waiting
  | .interrupted :: ios, n + 1, stream => getAll ios (n + 1) stream
  | .moves _ :: _, _ + 1, [] => .ended
  | .moves extra :: ios, n + 1, x :: xs =>
    let r := min (extra + 1) (min (n + 1) (x :: xs).length)
    (getAll ios (n + 1 - r) ((x :: xs).drop r)).after ((x :: xs).take r)

theorem moving_replicate (n extra : Nat) : Io.moving (replicate n (.moves extra)) = n := by
  induction n with
  | zero => rfl
  | succ n ih => rw [replicate_succ, Io.moving, ih]

/-- **What a loop that puts items out can do**: put all of them out, or not return. -/
theorem putAll_cases (ios : List Io) (xs : List α) :
    (∃ rest, putAll ios xs = (xs, some rest) ∧ Io.moving ios ≤ Io.moving rest + xs.length) ∨
    (putAll ios xs).2 = none ∧ Io.moving ios < xs.length := by
  induction ios generalizing xs with
  | nil =>
    cases xs with
    | nil => exact .inl ⟨[], rfl, Nat.le_refl _⟩
    | cons x xs => exact .inr ⟨rfl, Nat.succ_pos _⟩
  | cons io ios ih =>
    cases xs with
    | nil => exact .inl ⟨io :: ios, rfl, Nat.le_refl _⟩
    | cons x xs =>
      cases io with
      | interrupted => exact ih (x :: xs)
      | moves extra =>
        have shorter : ((x :: xs).drop (extra + 1)).length ≤ xs.length := by
          rw [drop_succ_cons, length_drop]
          omega
        have moving : Io.moving (.moves extra :: ios) = Io.moving ios + 1 := rfl
        have unfolded : putAll (.moves extra :: ios) (x :: xs) =
            ((x :: xs).take (extra + 1) ++ (putAll ios ((x :: xs).drop (extra + 1))).1,
              (putAll ios ((x :: xs).drop (extra + 1))).2) := rfl
        rw [unfolded, moving, length_cons]
        rcases ih ((x :: xs).drop (extra + 1)) with ⟨rest, put, left⟩ | ⟨waits, few⟩
        · refine .inl ⟨rest, ?_, by omega⟩
          rw [put, take_append_drop]
        · exact .inr ⟨waits, by omega⟩

/-- **What a fetch can do**: fetch the next `n` items, meet the end of a stream that has fewer, or not return. -/
theorem getAll_cases (ios : List Io) (n : Nat) (stream : List α) :
    (∃ rest, getAll ios n stream = .all (stream.take n) (stream.drop n) rest ∧ n ≤ stream.length ∧
      Io.moving ios ≤ Io.moving rest + n) ∨ getAll ios n stream = .ended ∧ stream.length < n ∨
    getAll ios n stream = .waiting ∧ Io.moving ios < n := by
  induction ios generalizing n stream with
  | nil =>
    cases n with
    | zero => exact .inl ⟨[], rfl, Nat.zero_le _, Nat.le_refl _⟩
    | succ n => exact .inr (.inr ⟨rfl, Nat.succ_pos n⟩)
  | cons io ios ih =>
    cases n with
    | zero => exact .inl ⟨io :: ios, rfl, Nat.zero_le _, Nat.le_refl _⟩
    | succ n =>
      cases io with
      | interrupted => exact ih (n + 1) stream
      | moves extra =>
        have moving : Io.moving (.moves extra :: ios) = Io.moving ios + 1 := rfl
        cases stream with
        | nil => exact .inr (.inl ⟨rfl, Nat.succ_pos n⟩)
        | cons x xs =>
          have unfolded : getAll (.moves extra :: ios) (n + 1) (x :: xs) =
              (getAll ios (n + 1 - min (extra + 1) (min (n + 1) (x :: xs).length))
                ((x :: xs).drop (min (extra + 1) (min (n + 1) (x :: xs).length)))).after
                ((x :: xs).take (min (extra + 1) (min (n + 1) (x :: xs).length))) := rfl
          rw [unfolded, moving]
          generalize step : min (extra + 1) (min (n + 1) (x :: xs).length) = r
          have some : 0 < r ∧ r ≤ n + 1 ∧ r ≤ (x :: xs).length := by
            rw [length_cons] at step ⊢
            omega
          have length : ((x :: xs).drop r).length = (x :: xs).length - r := length_drop
          rcases ih (n + 1 - r) ((x :: xs).drop r) with ⟨rest, got, inside, left⟩ | ⟨got, short⟩ | ⟨got, short⟩
          · rw [got]
            refine .inl ⟨rest, ?_, by omega, by omega⟩
            rw [Got.after, drop_drop, ← take_add, Nat.add_sub_cancel' some.2.1]
          · rw [got]
            exact .inr (.inl ⟨rfl, by omega⟩)
          · rw [got]
            exact .inr (.inr ⟨rfl, by omega⟩)

end Lumimux.Lib
