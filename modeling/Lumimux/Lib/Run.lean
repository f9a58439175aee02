import Mathlib.Data.Set.Card
import Mathlib.Logic.Relation
import Mathlib.Tactic.Common

/-!
# Runs

`Along step P s inputs` says that every input of a history meets `P` in the state it is taken in. A run along a
relation without cycles ends on a finite type: the number of elements ahead goes down.
-/

namespace Lumimux.Lib
open List

variable {σ ε : Type*} {step : σ → ε → σ} {P Q : σ → ε → Prop}

/-- Every input meets `P` in the state it is taken in. -/
def Along (step : σ → ε → σ) (P : σ → ε → Prop) : σ → List ε → Prop
  | _, [] => True
  | s, e :: rest => P s e ∧ Along step P (step s e) rest

instance decidableAlong [∀ s e, Decidable (P s e)] : (s : σ) → (inputs : List ε) → Decidable (Along step P s inputs)
  | _, [] => isTrue trivial
  | s, e :: rest =>
    have := decidableAlong (step s e) rest
    inferInstanceAs (Decidable (P s e ∧ Along step P (step s e) rest))

theorem along_of_forall {C : ε → Prop} {s inputs} (each : ∀ e ∈ inputs, C e) : Along step (fun _ e => C e) s inputs := by
  induction inputs generalizing s with
  | nil => trivial
  | cons e rest ih => exact ⟨each e mem_cons_self, ih fun e' member => each e' (mem_cons_of_mem e member)⟩

namespace Along

theorem and {s inputs} (p : Along step P s inputs) (q : Along step Q s inputs) :
    Along step (fun s e => P s e ∧ Q s e) s inputs := by
  induction inputs generalizing s with
  | nil => trivial
  | cons e rest ih => exact ⟨⟨p.1, q.1⟩, ih p.2 q.2⟩

theorem of_append {s earlier later} (h : Along step P s (earlier ++ later)) : Along step P s earlier := by
  induction earlier generalizing s with
  | nil => trivial
  | cons e rest ih => exact ⟨h.1, ih h.2⟩

theorem later {s earlier rest} (h : Along step P s (earlier ++ rest)) : Along step P (earlier.foldl step s) rest := by
  induction earlier generalizing s with
  | nil => exact h
  | cons e earlier ih => exact ih h.2

theorem append {s earlier later} (first : Along step P s earlier) (rest : Along step P (earlier.foldl step s) later) :
    Along step P s (earlier ++ later) := by
  induction earlier generalizing s with
  | nil => exact rest
  | cons e earlier ih => exact ⟨first.1, ih first.2 rest⟩

theorem invariant {I : σ → Prop} (keeps : ∀ s e, I s → P s e → I (step s e)) {s inputs} (init : I s)
    (h : Along step P s inputs) : I (inputs.foldl step s) := by
  induction inputs generalizing s with
  | nil => exact init
  | cons e rest ih => exact ih (keeps s e init h.1) h.2

theorem gives {I : σ → Prop} (keeps : ∀ s e, I s → P s e → I (step s e)) (holds : ∀ s e, I s → P s e → Q s e) {s inputs}
    (init : I s) (h : Along step P s inputs) : Along step Q s inputs := by
  induction inputs generalizing s with
  | nil => trivial
  | cons e rest ih => exact ⟨holds s e init h.1, ih (keeps s e init h.1) h.2⟩

theorem congr_of_invariant {I : σ → Prop} {A : σ → ε → Prop} (keeps : ∀ s e, I s → A s e → Q s e → I (step s e))
    (same : ∀ s e, I s → A s e → (P s e ↔ Q s e)) {s inputs} (init : I s) (h : Along step A s inputs) :
    Along step P s inputs ↔ Along step Q s inputs := by
  induction inputs generalizing s with
  | nil => exact Iff.rfl
  | cons e rest ih =>
    rw [Along, Along, same s e init h.1]
    exact and_congr_right fun holds => ih (keeps s e init h.1 holds) h.2

end Along

theorem run_invariant_rule {I : σ → Prop} (keeps : ∀ s e, I s → I (step s e)) {s} (init : I s) (inputs : List ε) :
    I (inputs.foldl step s) := by
  induction inputs generalizing s with
  | nil => exact init
  | cons e rest ih => exact ih (keeps s e init)

/-- **The budget rule for loops**: when a round costs at most `cost`, a loop costs at most that many
times its number of rounds. -/
theorem foldl_budget {P : Nat → σ → Prop} {cost} (round : ∀ budget s e, P (budget + cost) s → P budget (step s e))
    (inputs : List ε) {budget s} (enough : P (budget + cost * inputs.length) s) :
    P budget (inputs.foldl step s) := by
  induction inputs generalizing s with
  | nil => exact enough
  | cons e rest ih =>
    refine ih (round _ s e ?_)
    rw [length_cons, Nat.mul_succ, ← Nat.add_assoc] at enough
    exact enough

section
variable {α : Type*} [Finite α] {r : α → α → Prop}

/-- How many elements can still be reached. -/
noncomputable def ahead (r : α → α → Prop) (a : α) : Nat := {b | Relation.TransGen r a b}.ncard

theorem ahead_lt_card {a : α} (acyclic : ¬ Relation.TransGen r a a) : ahead r a < Nat.card α := by
  rw [← Set.ncard_univ]
  exact Set.ncard_lt_ncard ⟨Set.subset_univ _, fun all => acyclic (all (Set.mem_univ a))⟩ (Set.toFinite _)

theorem ahead_lt {a b : α} (acyclic : ¬ Relation.TransGen r b b) (next : r a b) : ahead r b < ahead r a :=
  Set.ncard_lt_ncard ⟨fun _ later => .head next later, fun all => acyclic (all (.single next))⟩ (Set.toFinite _)

end

end Lumimux.Lib
