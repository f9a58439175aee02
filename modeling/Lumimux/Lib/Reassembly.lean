import Mathlib.Tactic.Common
import Mathlib.Data.List.Basic

/-!
# Reassembly of frames from a byte stream

A receiver cuts complete frames off the front of a buffer. When a verdict other than "more" never changes as bytes
arrive (`Stable`), the frames do not depend on the segments.
-/

namespace Lumimux.Lib
open List

variable {α β : Type*}

inductive Verdict (α β : Type*)
  | frame (b : β) (rest : List α)
  | more
  | bad
  deriving DecidableEq, Repr

/-- More bytes change neither a frame nor a failure. -/
structure Stable (take : List α → Verdict α β) : Prop where
  shrinks : ∀ {xs b rest}, take xs = .frame b rest → rest.length < xs.length
  frame : ∀ {xs b rest}, take xs = .frame b rest → ∀ ys, take (xs ++ ys) = .frame b (rest ++ ys)
  bad : ∀ {xs}, take xs = .bad → ∀ ys, take (xs ++ ys) = .bad

def drainFor (take : List α → Verdict α β) : Nat → List α → List β × List α
  | 0, xs => ([], xs)
  | n + 1, xs =>
    match take xs with
    | .frame b rest => (b :: (drainFor take n rest).1, (drainFor take n rest).2)
    | .more => ([], xs)
    | .bad => ([], xs)

/-- All frames at the front. -/
def drain (take : List α → Verdict α β) (xs : List α) : List β × List α := drainFor take xs.length xs

variable {take : List α → Verdict α β}

theorem drainFor_more {xs} (stuck : ∀ b rest, take xs ≠ .frame b rest) (n : Nat) : drainFor take n xs = ([], xs) := by
  cases n with
  | zero => rfl
  | succ n =>
    unfold drainFor
    split
    · rename_i b rest found
      exact absurd found (stuck b rest)
    · rfl
    · rfl

theorem drainFor_frame {xs rest b} (found : take xs = .frame b rest) (n : Nat) :
    drainFor take (n + 1) xs = (b :: (drainFor take n rest).1, (drainFor take n rest).2) := by
  rw [drainFor, found]

theorem frame_or_stuck (take : List α → Verdict α β) (xs : List α) :
    (∃ b rest, take xs = .frame b rest) ∨ ∀ b rest, take xs ≠ .frame b rest := by
  cases found : take xs with
  | frame b rest => exact .inl ⟨b, rest, rfl⟩
  | more | bad => exact .inr fun b rest same => by cases same

theorem drain_stuck {xs} (stuck : ∀ b rest, take xs ≠ .frame b rest) : drain take xs = ([], xs) :=
  drainFor_more stuck _

section Stable

variable (stable : Stable take)
include stable

theorem Stable.induct {P : List α → Prop} (stuck : ∀ xs, (∀ b rest, take xs ≠ .frame b rest) → P xs)
    (frame : ∀ xs b rest, take xs = .frame b rest → P rest → P xs) (xs : List α) : P xs := by
  induction length : xs.length using Nat.strongRecOn generalizing xs with
  | ind k ih =>
    rcases frame_or_stuck take xs with ⟨b, rest, found⟩ | none
    · have shorter := stable.shrinks found
      exact frame xs b rest found (ih rest.length (by omega) rest rfl)
    · exact stuck xs none

theorem drainFor_enough (xs : List α) : ∀ n, xs.length ≤ n → drainFor take n xs = drain take xs := by
  induction xs using stable.induct with
  | stuck xs none =>
    intro n _
    rw [drain_stuck none, drainFor_more none]
  | frame xs b rest found ih =>
    intro n enough
    have shorter := stable.shrinks found
    obtain ⟨n, rfl⟩ : ∃ m, n = m + 1 := ⟨n - 1, by omega⟩
    obtain ⟨k, length⟩ : ∃ k, xs.length = k + 1 := ⟨xs.length - 1, by omega⟩
    rw [drain, length, drainFor_frame found, drainFor_frame found, ih n (by omega), ih k (by omega)]

theorem drain_frame {xs rest b} (found : take xs = .frame b rest) :
    drain take xs = (b :: (drain take rest).1, (drain take rest).2) := by
  have shorter := stable.shrinks found
  rw [← drainFor_enough stable xs (xs.length + 1) (Nat.le_succ _), drainFor_frame found,
    drainFor_enough stable rest xs.length (Nat.le_of_lt shorter)]

theorem drain_append (xs ys : List α) : drain take (xs ++ ys) = ((drain take xs).1 ++ (drain take ((drain take xs).2 ++ ys)).1,
      (drain take ((drain take xs).2 ++ ys)).2) := by
  induction xs using stable.induct with
  | stuck xs none =>
    rw [drain_stuck none]
    rfl
  | frame xs b rest found ih =>
    rw [drain_frame stable (stable.frame found ys), drain_frame stable found, ih]
    rfl

theorem drain_left_stuck (xs : List α) : ∀ b rest, take (drain take xs).2 ≠ .frame b rest := by
  induction xs using stable.induct with
  | stuck xs none =>
    rw [drain_stuck none]
    exact none
  | frame xs b rest found ih =>
    rw [drain_frame stable found]
    exact ih

theorem drain_sound {encode : β → List α} (shape : ∀ {xs b rest}, take xs = .frame b rest → xs = encode b ++ rest)
    (xs : List α) : xs = (drain take xs).1.flatMap encode ++ (drain take xs).2 := by
  induction xs using stable.induct with
  | stuck xs none =>
    rw [drain_stuck none]
    rfl
  | frame xs b rest found ih =>
    rw [drain_frame stable found, flatMap_cons, append_assoc, ← ih]
    exact shape found

/-- **Frames put out one after the other** are cut off one after the other. -/
theorem drain_frames {encode : β → List α} {bs} (sent : ∀ b ∈ bs, ∀ ys, take (encode b ++ ys) = .frame b ys) (ys : List α) :
    drain take (bs.flatMap encode ++ ys) = (bs ++ (drain take ys).1, (drain take ys).2) := by
  induction bs with
  | nil => rfl
  | cons b bs ih =>
    rw [flatMap_cons, append_assoc, drain_frame stable (sent b mem_cons_self _),
      ih fun b' member => sent b' (mem_cons_of_mem b member)]
    rfl

end Stable

structure Receiver (α β : Type*) where
  buf : List α
  got : List β
  arrived : List α

structure Receiver.Honest (take : List α → Verdict α β) (r : Receiver α β) : Prop where
  got : r.got ++ (drain take r.buf).1 = (drain take r.arrived).1
  left : (drain take r.buf).2 = (drain take r.arrived).2

namespace Receiver.Honest

variable {r : Receiver α β}

theorem start (take : List α → Verdict α β) : Receiver.Honest take ⟨[], [], []⟩ := ⟨rfl, rfl⟩

theorem arrive (stable : Stable take) (h : r.Honest take) (xs : List α) :
    Receiver.Honest take ⟨r.buf ++ xs, r.got, r.arrived ++ xs⟩ where
  got := by
    rw [drain_append stable r.arrived, drain_append stable r.buf, ← h.left, ← h.got, append_assoc]
  left := by
    rw [drain_append stable r.arrived, drain_append stable r.buf, ← h.left]

theorem cut (stable : Stable take) (h : r.Honest take) {b rest} (found : take r.buf = .frame b rest) :
    Receiver.Honest take ⟨rest, r.got ++ [b], r.arrived⟩  where
  got := by
    have got := h.got
    rw [drain_frame stable found] at got
    rw [← got, append_assoc]
    rfl
  left := by
    have left := h.left
    rw [drain_frame stable found] at left
    exact left

theorem got_begins (h : r.Honest take) : r.got <+: (drain take r.arrived).1 := ⟨_, h.got⟩

end Receiver.Honest

end Lumimux.Lib
