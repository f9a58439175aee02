import Mathlib.Data.List.Nodup
import Mathlib.Logic.Function.Basic
import Mathlib.Tactic.Common
import Lumimux.Lib.ListEdit

/-!
# Tables of keyed records

A list of records without double keys is a map, and replacing, adding and removing a record update it at one key; the
order does not matter.
-/

namespace Lumimux.Lib
open List Function

variable {α κ : Type*} {key : α → κ}

section Lookup

variable [DecidableEq κ]

/-- The record of a key. -/
def lookup (key : α → κ) (table : List α) (k : κ) : Option α := table.find? fun a => key a = k

variable {table : List α} {k : κ} {a : α}

theorem lookup_eq_none_iff : lookup key table k = none ↔ k ∉ table.map key := by
  simp [lookup, find?_eq_none]

theorem lookup_isSome_iff : (lookup key table k).isSome ↔ k ∈ table.map key := by
  simp [lookup]

theorem key_of_lookup (found : lookup key table k = some a) : key a = k := by
  simpa using find?_some found

theorem mem_of_lookup (found : lookup key table k = some a) : a ∈ table :=
  mem_of_find?_eq_some found

theorem lookup_eq_some_iff (distinct : (table.map key).Nodup) : lookup key table k = some a ↔ a ∈ table ∧ key a = k := by
  constructor
  · exact fun found => ⟨mem_of_lookup found, key_of_lookup found⟩
  · rintro ⟨member, rfl⟩
    have present : (lookup key table (key a)).isSome := lookup_isSome_iff.mpr (mem_map_of_mem member)
    obtain ⟨b, found⟩ := Option.isSome_iff_exists.mp present
    rw [found, inj_on_of_nodup_map distinct (mem_of_lookup found) member (key_of_lookup found)]

theorem lookup_perm {table'} (perm : table.Perm table') (distinct : (table.map key).Nodup) :
    lookup key table = lookup key table' := by
  funext k
  apply Option.ext
  intro a
  rw [lookup_eq_some_iff distinct, lookup_eq_some_iff ((perm.map key).nodup_iff.mp distinct), perm.mem_iff]

theorem split_of_findIdx {i} (found : table.findIdx? (fun a => key a = k) = some i) :
    ∃ xs a zs, table = xs ++ a :: zs ∧ xs.length = i ∧ key a = k := by
  obtain ⟨bound, selected, -⟩ := List.findIdx?_eq_some_iff_getElem.mp found
  refine ⟨table.take i, table[i], table.drop (i + 1), ?_, by simp only [length_take]; omega, by simpa using selected⟩
  rw [← drop_eq_getElem_cons bound, take_append_drop]

end Lookup

def swapRemove (table : List α) (i : Nat) : List α := (table.getLast?.elim table (table.set i ·)).dropLast

theorem swapRemove_perm (xs : List α) (a : α) (zs : List α) : (swapRemove (xs ++ a :: zs) xs.length).Perm (xs ++ zs) := by
  rcases eq_nil_or_concat zs with rfl | ⟨ys, z, rfl⟩
  · simp [swapRemove]
  · rw [concat_eq_append]
    have last : (xs ++ a :: (ys ++ [z])).getLast? = some z := by
      rw [← cons_append, ← append_assoc, getLast?_concat]
    have hole : swapRemove (xs ++ a :: (ys ++ [z])) xs.length = xs ++ z :: ys := by
      rw [swapRemove, last, Option.elim_some, set_middle, ← cons_append, ← append_assoc,
        dropLast_concat]
    rw [hole]
    exact List.Perm.append_left xs (perm_append_singleton z ys).symm

section Updates

variable {xs zs : List α} {a b : α}

theorem distinct_replace (same : key b = key a) (distinct : ((xs ++ a :: zs).map key).Nodup) :
    ((xs ++ b :: zs).map key).Nodup := by
  rw [map_append, map_cons, same, ← map_cons, ← map_append]
  exact distinct

theorem distinct_remove (distinct : ((xs ++ a :: zs).map key).Nodup) : ((xs ++ zs).map key).Nodup :=
  distinct.sublist ((sublist_cons_self a zs).append_left xs |>.map key)

theorem distinct_push {table} (fresh : key a ∉ table.map key) (distinct : (table.map key).Nodup) :
    ((table ++ [a]).map key).Nodup := by
  rw [map_append, map_singleton, nodup_append_comm, singleton_append]
  exact nodup_cons.mpr ⟨fresh, distinct⟩

theorem key_ne_of_distinct (distinct : ((xs ++ a :: zs).map key).Nodup) {c} (other : c ∈ xs ++ zs) : key c ≠ key a := by
  rw [map_append, map_cons, nodup_middle, nodup_cons, ← map_append] at distinct
  exact fun same => distinct.1 (same ▸ mem_map_of_mem other)

variable [DecidableEq κ]

theorem lookup_remove (distinct : ((xs ++ a :: zs).map key).Nodup) :
    lookup key (xs ++ zs) = Function.update (lookup key (xs ++ a :: zs)) (key a) none := by
  funext k
  apply Option.ext
  intro c
  rw [lookup_eq_some_iff (distinct_remove distinct)]
  by_cases same : k = key a
  · subst same
    rw [update_self]
    exact ⟨fun ⟨member, eq⟩ => (key_ne_of_distinct distinct member eq).elim, fun h => nomatch h⟩
  · rw [update_of_ne same, lookup_eq_some_iff distinct]
    constructor
    · rintro ⟨member, eq⟩
      exact ⟨by simp only [mem_append, mem_cons] at member ⊢; tauto, eq⟩
    · rintro ⟨member, rfl⟩
      have ne : c ≠ a := fun h => same (congrArg key h)
      exact ⟨by simp only [mem_append, mem_cons] at member ⊢; tauto, rfl⟩

theorem lookup_push {table} (fresh : key a ∉ table.map key) :
    lookup key (table ++ [a]) = Function.update (lookup key table) (key a) (some a) := by
  funext k
  rw [lookup, find?_append]
  by_cases same : k = key a
  · subst same
    have absent : table.find? (fun b => key b = key a) = none := lookup_eq_none_iff.mpr fresh
    simp [absent]
  · have other : ¬ key a = k := fun h => same h.symm
    simp [update_of_ne same, lookup, other]

theorem lookup_replace (same : key b = key a) (distinct : ((xs ++ a :: zs).map key).Nodup) :
    lookup key (xs ++ b :: zs) = Function.update (lookup key (xs ++ a :: zs)) (key a) (some b) := by
  have removed := lookup_remove (distinct_replace same distinct)
  rw [lookup_remove distinct, same] at removed
  funext k
  by_cases here : k = key a
  · subst here
    rw [update_self, lookup_eq_some_iff (distinct_replace same distinct)]
    exact ⟨by simp, same⟩
  · have there := congrFun removed k
    rw [update_of_ne here, update_of_ne here] at there
    rw [update_of_ne here, there]

end Updates

end Lumimux.Lib
