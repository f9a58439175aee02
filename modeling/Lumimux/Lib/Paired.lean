import Mathlib.Tactic.Common

/-!
# Linked neighbours on a tape

A tape is `Paired` when a position holds a closing value exactly if the one before it holds an opening one.
-/

namespace Lumimux.Lib

variable {β : Type*}

/-- A value is closing exactly if the one before it opens. -/
def Paired (opens closes : β → Prop) (tape : Int → β) : Prop := ∀ k, opens (tape (k - 1)) ↔ closes (tape k)

namespace Paired

variable {opens closes : β → Prop} {tape tape' : Int → β}

section
variable (h : Paired opens closes tape)
include h

theorem not_opens {k : Int} (clean : ¬ closes (tape k)) : ¬ opens (tape (k - 1)) :=
  fun pair => clean ((h k).mp pair)

/-- **The rule for edits**: what is in front of `lo` stays, what is from `hi` on is the old tape moved by
`d`, and between them is a piece that is paired on its own. -/
theorem splice (lo hi d : Int) (order : lo ≤ hi) (before : ∀ k < lo, tape' k = tape k)
    (after : ∀ k, hi ≤ k → tape' k = tape (k - d)) (start : ¬ closes (tape lo)) (stop : ¬ closes (tape (hi - d)))
    (inside : ∀ k, lo < k → k < hi → (opens (tape' (k - 1)) ↔ closes (tape' k)))
    (first : lo < hi → ¬ closes (tape' lo)) (last : lo < hi → ¬ opens (tape' (hi - 1))) : Paired opens closes tape' := by
  intro k
  rcases Int.lt_trichotomy k lo with left | rfl | right
  · rw [before k left, before (k - 1) (by omega)]
    exact h k
  · rw [before (k - 1) (by omega)]
    refine iff_of_false (h.not_opens start) ?_
    by_cases empty : k < hi
    · exact first empty
    · rw [after k (by omega), show k = hi by omega]
      exact stop
  · rcases Int.lt_trichotomy k hi with within | rfl | beyond
    · exact inside k right within
    · refine iff_of_false (last right) ?_
      rw [after k (Int.le_refl k)]
      exact stop
    · rw [after k (by omega), after (k - 1) (by omega), show k - 1 - d = k - d - 1 by omega]
      exact h (k - d)

theorem blanked (lo hi : Int) (order : lo ≤ hi)
    (outside : ∀ k, k < lo ∨ hi ≤ k → tape' k = tape k) (start : ¬ closes (tape lo)) (stop : ¬ closes (tape hi))
    (within : ∀ k, lo ≤ k → k < hi → ¬ opens (tape' k) ∧ ¬ closes (tape' k)) : Paired opens closes tape' := by
  refine h.splice lo hi 0 order (fun k low => outside k (.inl low)) (fun k high => ?_) start (by rwa [Int.sub_zero])
    (fun k low high => iff_of_false (within (k - 1) (by omega) (by omega)).1 (within k (by omega) high).2)
    (fun some => (within lo (Int.le_refl _) some).2) (fun some => (within (hi - 1) (by omega) (by omega)).1)
  rw [outside k (.inr high), Int.sub_zero]

theorem cut (hi : Int) (blank : β) (closed : ¬ opens blank) (unopened : ¬ closes blank)
    (clean : ¬ closes (tape hi)) (before : ∀ k < hi, tape' k = tape k) (after : ∀ k, hi ≤ k → tape' k = blank) :
    Paired opens closes tape' := by
  intro k
  by_cases left : k < hi
  · rw [before k left, before (k - 1) (by omega)]
    exact h k
  · rw [after k (by omega)]
    refine iff_of_false ?_ unopened
    by_cases edge : k = hi
    · rw [before (k - 1) (by omega), edge]
      exact h.not_opens clean
    · rw [after (k - 1) (by omega)]
      exact closed

end

end Paired

end Lumimux.Lib
