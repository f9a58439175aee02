import Mathlib.Tactic.Common

/-!
# Binary trees with places

Binary trees with labels; a place is the way to a subtree, and replacing the subtree changes only its own leaves.
-/

namespace Lumimux.Lib
open List

inductive Tree (β α : Type*) where
  | leaf (label : α)
  | branch (label : β) (a b : Tree β α)
  deriving DecidableEq, Repr

inductive Side where
  | a
  | b
  deriving DecidableEq, Repr

abbrev Place := List Side

namespace Tree

variable {β α : Type*}

def leaves : Tree β α → List α
  | leaf label => [label]
  | branch _ a b => a.leaves ++ b.leaves

def branches : Tree β α → List β
  | leaf _ => []
  | branch label a b => label :: (a.branches ++ b.branches)

def map {δ γ : Type*} (f : β → δ) (g : α → γ) : Tree β α → Tree δ γ
  | leaf label => leaf (g label)
  | branch label a b => branch (f label) (a.map f g) (b.map f g)

def get? : Tree β α → Place → Option (Tree β α)
  | t, [] => some t
  | branch _ a _, .a :: place => a.get? place
  | branch _ _ b, .b :: place => b.get? place
  | leaf _, _ :: _ => none

def replace : Tree β α → Place → Tree β α → Tree β α
  | _, [], new => new
  | branch label a b, .a :: place, new => branch label (a.replace place new) b
  | branch label a b, .b :: place, new => branch label a (b.replace place new)
  | leaf label, _ :: _, _ => leaf label

def before : Tree β α → Place → List α
  | branch _ a _, .a :: place => a.before place
  | branch _ a b, .b :: place => a.leaves ++ b.before place
  | _, _ => []

def after : Tree β α → Place → List α
  | branch _ a b, .a :: place => a.after place ++ b.leaves
  | branch _ _ b, .b :: place => b.after place
  | _, _ => []

def join (label : β) : Option (Tree β α) → Option (Tree β α) → Option (Tree β α)
  | some a, some b => some (branch label a b)
  | some a, none => some a
  | none, keep => keep

def prune (gone : α → Bool) : Tree β α → Option (Tree β α)
  | leaf label => if gone label then none else some (leaf label)
  | branch label a b => join label (a.prune gone) (b.prune gone)

variable {t s : Tree β α} {place : Place}

@[simp] theorem get_nil (t : Tree β α) : t.get? [] = some t := by cases t <;> rfl

@[simp] theorem get_leaf_cons (label : α) (side : Side) (place : Place) :
    (leaf label : Tree β α).get? (side :: place) = none := by cases side <;> rfl

@[simp] theorem replace_nil (t new : Tree β α) : t.replace [] new = new := by cases t <;> rfl

theorem leaves_ne_nil (t : Tree β α) : t.leaves ≠ [] := by
  induction t with
  | leaf label => simp [leaves]
  | branch label a b iha ihb => simp [leaves, iha]

theorem leaves_get (found : t.get? place = some s) : t.leaves = t.before place ++ s.leaves ++ t.after place := by
  induction place generalizing t with
  | nil =>
    rw [get_nil, Option.some.injEq] at found
    subst found
    cases t <;> simp [before, after]
  | cons side place ih =>
    cases t with
    | leaf label => simp at found
    | branch label a b =>
      cases side with
      | a | b => simp only [leaves, before, after, ih found, append_assoc]

theorem leaves_replace (found : t.get? place = some s) (new : Tree β α) :
    (t.replace place new).leaves = t.before place ++ new.leaves ++ t.after place := by
  induction place generalizing t with
  | nil => cases t <;> simp [before, after]
  | cons side place ih =>
    cases t with
    | leaf label => simp at found
    | branch label a b =>
      cases side with
      | a | b => simp only [replace, leaves, before, after, ih found, append_assoc]

theorem get_replace (found : t.get? place = some s) (new : Tree β α) : (t.replace place new).get? place = some new := by
  induction place generalizing t with
  | nil => rw [replace_nil, get_nil]
  | cons side place ih =>
    cases t with
    | leaf label => simp at found
    | branch label a b => cases side <;> exact ih found

variable {gone : α → Bool}

theorem prune_replace {new : Tree β α} (found : t.get? place = some s) (same : new.prune gone = s.prune gone) :
    (t.replace place new).prune gone = t.prune gone := by
  induction place generalizing t with
  | nil =>
    rw [get_nil, Option.some.injEq] at found
    rw [replace_nil, same, found]
  | cons side place ih =>
    cases t with
    | leaf label => simp at found
    | branch label a b =>
      cases side with
      | a | b => rw [replace, prune, prune, ih found]

theorem prune_of_forall (here : ∀ label ∈ t.leaves, gone label = false) : t.prune gone = some t := by
  induction t with
  | leaf label =>
    rw [prune, here label mem_cons_self]
    rfl
  | branch label a b iha ihb =>
    obtain ⟨left, right⟩ := forall_mem_append.mp here
    rw [prune, iha left, ihb right, join]

theorem prune_eq_none (all : ∀ label ∈ t.leaves, gone label = true) : t.prune gone = none := by
  induction t with
  | leaf label => exact if_pos (all label mem_cons_self)
  | branch label a b iha ihb =>
    obtain ⟨left, right⟩ := forall_mem_append.mp all
    rw [prune, iha left, ihb right, join]

theorem prune_map {δ γ : Type*} (f : β → δ) (g : α → γ) (gone : γ → Bool) (t : Tree β α) :
    (t.map f g).prune gone = (t.prune (gone ∘ g)).map (map f g) := by
  induction t with
  | leaf label =>
    rw [map, prune, prune, Function.comp_apply]
    split <;> rfl
  | branch label a b iha ihb =>
    rw [map, prune, prune, iha, ihb]
    cases a.prune (gone ∘ g) <;> cases b.prune (gone ∘ g) <;> rfl

theorem leaves_map {δ γ : Type*} (f : β → δ) (g : α → γ) (t : Tree β α) : (t.map f g).leaves = t.leaves.map g := by
  induction t with
  | leaf label => rfl
  | branch label a b iha ihb => rw [map, leaves, leaves, iha, ihb, map_append]

end Tree

end Lumimux.Lib
