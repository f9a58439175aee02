import Mathlib.Tactic

/-!
# Editing a list at a position

How edits of a list act at a split of it, and how they commute with a projection.
-/

namespace Lumimux.Lib
open List

variable {α β : Type*}

theorem modify_middle (xs : List α) (y : α) (zs : List α) (f : α → α) :
    (xs ++ y :: zs).modify xs.length f = xs ++ f y :: zs := by
  induction xs with
  | nil => rfl
  | cons x xs ih => rw [cons_append, length_cons, modify_succ_cons, ih, cons_append]

theorem set_middle (xs : List α) (y : α) (zs : List α) (x : α) : (xs ++ y :: zs).set xs.length x = xs ++ x :: zs := by
  rw [set_append_right _ _ (le_refl _), Nat.sub_self, set_cons_zero]

theorem split_of_getElem? {l : List α} {i : Nat} {a : α} (found : l[i]? = some a) :
    ∃ before after, l = before ++ a :: after ∧ before.length = i := by
  obtain ⟨bound, rfl⟩ := List.getElem?_eq_some_iff.mp found
  refine ⟨l.take i, l.drop (i + 1), ?_, length_take_of_le bound.le⟩
  rw [← drop_eq_getElem_cons bound, take_append_drop]

theorem insertIdx_append (xs zs : List α) (x : α) : (xs ++ zs).insertIdx xs.length x = xs ++ x :: zs := by
  induction xs with
  | nil => rfl
  | cons y xs ih => rw [cons_append, length_cons, insertIdx_succ_cons, ih, cons_append]

theorem insertIdx_middle (xs : List α) (y : α) (zs : List α) (x : α) :
    (xs ++ y :: zs).insertIdx (xs.length + 1) x = xs ++ y :: x :: zs := by
  have inserted := insertIdx_append (xs ++ [y]) zs x
  rwa [length_append, append_assoc, append_assoc] at inserted

theorem eraseIdx_middle (xs : List α) (y x : α) (zs : List α) :
    (xs ++ y :: x :: zs).eraseIdx (xs.length + 1) = xs ++ y :: zs := by
  rw [eraseIdx_append_of_length_le (Nat.le_add_right _ 1), Nat.add_sub_cancel_left]
  rfl

theorem map_modify {proj : α → β} {f : α → α} {g : β → β} (commutes : ∀ x, proj (f x) = g (proj x)) (l : List α)
    (i : Nat) : (l.modify i f).map proj = (l.map proj).modify i g := by
  induction l generalizing i with
  | nil => cases i <;> rfl
  | cons x xs ih =>
    cases i with
    | zero => simp only [modify_zero_cons, map_cons, commutes]
    | succ i => simp only [modify_succ_cons, map_cons, ih]

theorem forall₂_modify {R : α → β → Prop} {xs ys} (related : List.Forall₂ R xs ys) {f : β → β}
    (keeps : ∀ x y, R x y → R x (f y)) (i : Nat) : List.Forall₂ R xs (ys.modify i f) := by
  induction related generalizing i with
  | nil => cases i <;> exact .nil
  | cons head tail ih =>
    cases i with
    | zero => exact .cons (keeps _ _ head) tail
    | succ i => exact .cons head (ih i)

theorem forall_mem_modify {P : α → Prop} {l : List α} (each : ∀ x ∈ l, P x) {f : α → α} (keeps : ∀ x, P x → P (f x)) (i : Nat) :
    ∀ x ∈ l.modify i f, P x := by
  induction l generalizing i with
  | nil => cases i <;> exact each
  | cons x xs ih =>
    obtain ⟨here, rest⟩ := forall_mem_cons.mp each
    cases i with
    | zero => exact forall_mem_cons.mpr ⟨keeps x here, rest⟩
    | succ i => exact forall_mem_cons.mpr ⟨here, ih rest i⟩

theorem forall_mem_of_forall₂ {R : α → β → Prop} {P : α → Prop} {Q : β → Prop} (carries : ∀ x y, R x y → P x → Q y) {xs ys}
    (related : List.Forall₂ R xs ys) (each : ∀ x ∈ xs, P x) : ∀ y ∈ ys, Q y := by
  induction related with
  | nil => exact fun _ none => absurd none not_mem_nil
  | cons head _ ih =>
    obtain ⟨here, rest⟩ := forall_mem_cons.mp each
    exact forall_mem_cons.mpr ⟨carries _ _ head here, ih rest⟩

theorem getElem?_of_forall₂ {R : α → β → Prop} {xs ys} (related : List.Forall₂ R xs ys) (i : Nat) :
    Option.Rel R xs[i]? ys[i]? := by
  induction related generalizing i with
  | nil => exact .none
  | cons head tail ih =>
    cases i with
    | zero => exact .some head
    | succ i => exact ih i

theorem flatten_map_take_length (n : Nat) (chunks : List (List α)) :
    (chunks.map (·.take n)).flatten.length ≤ chunks.flatten.length := by
  induction chunks with
  | nil => exact Nat.le_refl 0
  | cons c chunks ih =>
    simp only [map_cons, flatten_cons, length_append, length_take]
    omega

/-- **Cutting chunks loses nothing exactly when none is too long.** -/
theorem flatten_map_take_eq_iff (n : Nat) (chunks : List (List α)) :
    (chunks.map (·.take n)).flatten = chunks.flatten ↔ ∀ c ∈ chunks, c.length ≤ n := by
  induction chunks with
  | nil => simp
  | cons c chunks ih =>
    rw [forall_mem_cons, ← ih, map_cons, flatten_cons, flatten_cons]
    constructor
    · intro same
      have rest := flatten_map_take_length n chunks
      have lengths := congrArg List.length same
      simp only [length_append, length_take] at lengths
      have fits : c.length ≤ n := by omega
      rw [take_of_length_le fits] at same
      exact ⟨fits, append_cancel_left same⟩
    · rintro ⟨fits, same⟩
      rw [take_of_length_le fits, same]

def appendBounded {α : Type*} (max : Nat) (xs : List α) (x : α) : List α := if xs.length ≥ max then xs else xs ++ [x]

theorem foldl_appendBounded {α : Type*} {max xs} (room : xs.length ≤ max) (ys : List α) :
    ys.foldl (appendBounded max) xs = xs ++ ys.take (max - xs.length) := by
  induction ys generalizing xs with
  | nil => rw [foldl_nil, take_nil, append_nil]
  | cons y ys ih =>
    rw [foldl_cons, appendBounded]
    split
    · rename_i full
      rw [ih room, Nat.sub_eq_zero_of_le full, take_zero, take_zero]
    · rename_i open_
      have length : (xs ++ [y]).length = xs.length + 1 := length_append
      rw [ih (by omega), length, append_assoc, singleton_append, ← take_succ_cons]
      congr 2
      omega

end Lumimux.Lib
