import Mathlib.Data.Finset.Card
import Lumimux.Attr.Store
import Lumimux.Lib.Keyed

/-!
# Commit as an update of a map

Each staged write updates the map of the entries at its key.
-/

namespace Lumimux.Attr
open Lib Option Function

theorem copyString_of_lt {size text} (fits : text.length < size) : copyString size text = text :=
  List.take_of_length_le (Nat.le_pred_of_lt fits)

namespace AttrStore

def contents (entries : List AttrEntry) (key : Bytes) : Option (Bytes × Nat) :=
  (lookup AttrEntry.key entries key).map fun e => (e.value, e.gen)

/-- No key has two entries. -/
def Distinct (entries : List AttrEntry) : Prop := (entries.map AttrEntry.key).Nodup
  deriving Decidable

def keySet (entries : List AttrEntry) : Finset Bytes := (entries.map AttrEntry.key).toFinset

section
variable (entries : List AttrEntry) (key : Bytes)

theorem find_eq_lookup : entries.find? (·.key == key) = lookup AttrEntry.key entries key := by
  unfold lookup
  congr 1
  funext e
  exact Bool.eq_iff_iff.mpr (by simp)

theorem findEntry_eq : findEntry entries key = entries.findIdx? fun e => e.key = key := by
  unfold findEntry
  congr 1
  funext e
  exact Bool.eq_iff_iff.mpr (by simp)

theorem genOf_eq : genOf entries key = ((contents entries key).map Prod.snd).getD 0 := by
  unfold genOf contents
  rw [find_eq_lookup]
  cases lookup AttrEntry.key entries key <;> rfl

end

variable {entries : List AttrEntry} {key : Bytes}

theorem mem_keySet : key ∈ keySet entries ↔ (contents entries key).isSome := by
  rw [keySet, List.mem_toFinset, contents, isSome_map, lookup_isSome_iff]

theorem contents_none_iff : contents entries key = none ↔ key ∉ keySet entries := by
  rw [mem_keySet, not_isSome_iff_eq_none]

theorem card_keySet (distinct : Distinct entries) : (keySet entries).card = entries.length := by
  rw [keySet, List.toFinset_card_of_nodup distinct, List.length_map]

theorem findEntry_none_iff : findEntry entries key = none ↔ key ∉ keySet entries := by
  rw [findEntry_eq, List.findIdx?_eq_none_iff, keySet, List.mem_toFinset]
  simp

end AttrStore

open AttrStore

def AttrWrite.Bounded (w : AttrWrite) : Prop :=
  w.key.length < attrMaxKeyLen ∧ w.value.length < attrMaxValueLen
  deriving Decidable

def AttrWrite.onMap (w : AttrWrite) (gen : Nat) (map : Bytes → Option (Bytes × Nat)) :
    Bytes → Option (Bytes × Nat) :=
  Function.update map w.key (if w.isDelete then none else some (w.value, gen))

def AttrWrite.genAfter (w : AttrWrite) (gen : Nat) : Nat := if w.isDelete then gen else (gen + 1) % 2 ^ 64

def AttrWrite.onKeys (w : AttrWrite) (keys : Finset Bytes) : Finset Bytes :=
  if w.isDelete then keys.erase w.key else insert w.key keys

def AttrWrite.HasRoom (w : AttrWrite) (keys : Finset Bytes) : Prop :=
  w.isDelete = true ∨ w.key ∈ keys ∨ keys.card < attrMaxKeys
  deriving Decidable

def overlay (map : Bytes → Option (Bytes × Nat)) (gen : Nat) : List AttrWrite → Bytes → Option (Bytes × Nat)
  | [] => map
  | w :: rest => overlay (w.onMap gen map) (w.genAfter gen) rest

def AllRoom (keys : Finset Bytes) : List AttrWrite → Prop
  | [] => True
  | w :: rest => w.HasRoom keys ∧ AllRoom (w.onKeys keys) rest

instance decidableAllRoom (keys : Finset Bytes) : (writes : List AttrWrite) → Decidable (AllRoom keys writes)
  | [] => isTrue trivial
  | w :: rest =>
    have := decidableAllRoom (w.onKeys keys) rest
    inferInstanceAs (Decidable (_ ∧ _))

def drawnGens (gen : Nat) : List AttrWrite → List Nat
  | [] => []
  | w :: rest => if w.isDelete then drawnGens gen rest else gen :: drawnGens ((gen + 1) % 2 ^ 64) rest

section OneWrite

variable {entries : List AttrEntry} {gen : Nat} {w : AttrWrite}

theorem keySet_of_contents {entries'} (updated : contents entries' = w.onMap gen (contents entries)) :
    keySet entries' = w.onKeys (keySet entries) := by
  ext key
  rw [mem_keySet, updated, AttrWrite.onMap, AttrWrite.onKeys]
  by_cases same : key = w.key
  · subst same
    rw [update_self]
    cases w.isDelete <;> simp
  · rw [update_of_ne same, ← mem_keySet]
    cases w.isDelete <;> simp [same]

theorem contents_update {entries' key e}
    (updated : lookup AttrEntry.key entries' = Function.update (lookup AttrEntry.key entries) key e) :
    contents entries' = Function.update (contents entries) key (e.map fun e => (e.value, e.gen)) := by
  funext k
  rw [contents, updated]
  by_cases same : k = key
  · subst same
    rw [update_self, update_self]
  · rw [update_of_ne same, update_of_ne same, contents]

theorem applyWrite_room (gen : Nat) (distinct : Distinct entries) (bounded : w.Bounded) (room : w.HasRoom (keySet entries)) :
    ∃ entries', applyWrite entries gen w = some (entries', w.genAfter gen) ∧ Distinct entries' ∧
      contents entries' = w.onMap gen (contents entries) := by
  unfold applyWrite AttrWrite.onMap AttrWrite.genAfter
  rw [copyString_of_lt bounded.1, copyString_of_lt bounded.2]
  cases found : findEntry entries w.key with
  | none =>
    have fresh := findEntry_none_iff.mp found
    cases del : w.isDelete with
    | true =>
      refine ⟨entries, rfl, distinct, ?_⟩
      rw [if_pos rfl, ← contents_none_iff.mpr fresh, update_eq_self]
    | false =>
      have small : ¬ entries.length ≥ attrMaxKeys := by
        rcases room with h | h | h
        · exact absurd h (by simp [del])
        · exact absurd h fresh
        · rw [card_keySet distinct] at h
          omega
      rw [keySet, List.mem_toFinset] at fresh
      refine ⟨_, if_neg small, distinct_push fresh distinct, ?_⟩
      exact contents_update (lookup_push fresh)
  | some i =>
    rw [findEntry_eq] at found
    obtain ⟨xs, e, zs, rfl, rfl, same⟩ := split_of_findIdx found
    cases w.isDelete with
    | true =>
      have perm := swapRemove_perm xs e zs
      have kept : Distinct (swapRemove (xs ++ e :: zs) xs.length) :=
        (perm.map AttrEntry.key).nodup_iff.mpr (distinct_remove distinct)
      have updated := (lookup_perm perm kept).trans (lookup_remove distinct)
      rw [same] at updated
      exact ⟨_, rfl, kept, contents_update updated⟩
    | false =>
      have unmoved : ({ e with value := w.value, gen := gen } : AttrEntry).key = e.key := rfl
      simp only [modify_middle]
      refine ⟨_, rfl, distinct_replace unmoved distinct, ?_⟩
      rw [← same]
      exact contents_update (lookup_replace unmoved distinct)

theorem applyWrite_full (distinct : Distinct entries) (full : ¬ w.HasRoom (keySet entries)) :
    applyWrite entries gen w = none := by
  simp only [AttrWrite.HasRoom, not_or, Bool.not_eq_true, card_keySet distinct] at full
  obtain ⟨set, fresh, large⟩ := full
  unfold applyWrite
  rw [findEntry_none_iff.mpr fresh, set]
  exact if_pos (Nat.le_of_not_lt large)

end OneWrite

section Loop

variable {entries : List AttrEntry} {gen : Nat} {writes : List AttrWrite}

theorem applyWrites_cons {w} (distinct : Distinct entries) (bounded : w.Bounded) :
    (w.HasRoom (keySet entries) ∧ ∃ entries', Distinct entries' ∧ contents entries' = w.onMap gen (contents entries) ∧
        keySet entries' = w.onKeys (keySet entries) ∧
        applyWrites entries gen (w :: writes) = applyWrites entries' (w.genAfter gen) writes) ∨
      (¬ w.HasRoom (keySet entries) ∧ applyWrites entries gen (w :: writes) = ((entries, gen), false)) := by
  by_cases room : w.HasRoom (keySet entries)
  · obtain ⟨entries', applied, distinct', updated⟩ := applyWrite_room gen distinct bounded room
    exact .inl ⟨room, entries', distinct', updated, keySet_of_contents updated, by rw [applyWrites, applied]⟩
  · exact .inr ⟨room, by rw [applyWrites, applyWrite_full distinct room]⟩

theorem applyWrites_room (gen : Nat) (distinct : Distinct entries) (bounded : ∀ w ∈ writes, w.Bounded)
    (room : AllRoom (keySet entries) writes) : (applyWrites entries gen writes).2 = true ∧
      contents (applyWrites entries gen writes).1.1 = overlay (contents entries) gen writes ∧
      (applyWrites entries gen writes).1.2 = writes.foldl (fun gen w => w.genAfter gen) gen := by
  induction writes generalizing entries gen with
  | nil => exact ⟨rfl, rfl, rfl⟩
  | cons w rest ih =>
    rw [List.forall_mem_cons] at bounded
    rcases applyWrites_cons distinct bounded.1 with ⟨-, entries', distinct', updated, keys, step⟩ | ⟨full, -⟩
    · rw [step, overlay, ← updated]
      exact ih _ distinct' bounded.2 (keys ▸ room.2)
    · exact absurd room.1 full

theorem applyWrites_full (gen : Nat) (distinct : Distinct entries) (bounded : ∀ w ∈ writes, w.Bounded)
    (full : ¬ AllRoom (keySet entries) writes) : (applyWrites entries gen writes).2 = false ∧
      attrMaxKeys ≤ (keySet (applyWrites entries gen writes).1.1).card := by
  induction writes generalizing entries gen with
  | nil => exact absurd trivial full
  | cons w rest ih =>
    rw [List.forall_mem_cons] at bounded
    rcases applyWrites_cons distinct bounded.1 with ⟨room, entries', distinct', -, keys, step⟩ | ⟨none_left, step⟩
    · rw [step]
      exact ih _ distinct' bounded.2 fun rest_room => full ⟨room, keys ▸ rest_room⟩
    · rw [step]
      simp only [AttrWrite.HasRoom, not_or] at none_left
      exact ⟨rfl, Nat.le_of_not_lt none_left.2.2⟩

theorem applyWrites_distinct (distinct : Distinct entries) (bounded : ∀ w ∈ writes, w.Bounded) :
    Distinct (applyWrites entries gen writes).1.1 := by
  induction writes generalizing entries gen with
  | nil => exact distinct
  | cons w rest ih =>
    rw [List.forall_mem_cons] at bounded
    rcases applyWrites_cons distinct bounded.1 with ⟨-, entries', distinct', -, -, step⟩ | ⟨-, step⟩
    · rw [step]
      exact ih distinct' bounded.2
    · rw [step]
      exact distinct

def OldOrDrawn (gens : List Nat) (before after : Option (Bytes × Nat)) : Prop :=
  after = before ∨ after = none ∨ ∃ value, ∃ gen ∈ gens, after = some (value, gen)

theorem OldOrDrawn.mono {gens gens' before after} (more : gens ⊆ gens') (h : OldOrDrawn gens before after) :
    OldOrDrawn gens' before after := by
  rcases h with h | h | ⟨value, gen, member, h⟩
  · exact .inl h
  · exact .inr (.inl h)
  · exact .inr (.inr ⟨value, gen, more member, h⟩)

theorem OldOrDrawn.drawn {gens before middle after}
    (first : middle = none ∨ ∃ value, ∃ gen ∈ gens, middle = some (value, gen)) (h : OldOrDrawn gens middle after) :
    OldOrDrawn gens before after := by
  rcases h with h | h
  · exact .inr (h ▸ first)
  · exact .inr h

theorem drawnGens_cons (gen : Nat) (w : AttrWrite) : drawnGens (w.genAfter gen) writes ⊆ drawnGens gen (w :: writes) := by
  rw [drawnGens, AttrWrite.genAfter]
  cases w.isDelete with
  | true => exact List.Subset.refl _
  | false => exact List.subset_cons_self _ _

theorem AttrWrite.onMap_self (w : AttrWrite) (map : Bytes → Option (Bytes × Nat)) : w.onMap gen map w.key = none ∨
      ∃ value, ∃ drawn ∈ drawnGens gen (w :: writes), w.onMap gen map w.key = some (value, drawn) := by
  rw [AttrWrite.onMap, update_self, drawnGens]
  cases w.isDelete with
  | true => exact .inl rfl
  | false => exact .inr ⟨w.value, gen, List.mem_cons_self, rfl⟩

theorem applyWrites_contents (distinct : Distinct entries) (bounded : ∀ w ∈ writes, w.Bounded) (key : Bytes) :
    OldOrDrawn (drawnGens gen writes) (contents entries key) (contents (applyWrites entries gen writes).1.1 key) := by
  induction writes generalizing entries gen with
  | nil => exact .inl rfl
  | cons w rest ih =>
    rw [List.forall_mem_cons] at bounded
    rcases applyWrites_cons distinct bounded.1 with ⟨-, entries', distinct', updated, -, step⟩ | ⟨-, step⟩
    · have later := (ih distinct' bounded.2).mono (drawnGens_cons gen w)
      rw [updated] at later
      rw [step]
      by_cases same : key = w.key
      · subst same
        exact later.drawn (w.onMap_self _)
      · rwa [AttrWrite.onMap, update_of_ne same] at later
    · rw [step]
      exact .inl rfl

end Loop

def firstEffect (keys : Finset Bytes) (writes : List AttrWrite) : Option AttrWrite :=
  writes.find? fun w => !(w.isDelete && w.key ∉ keys)

def AllOrNothing (keys : Finset Bytes) (writes : List AttrWrite) : Prop :=
  AllRoom keys writes ∨ ∃ w ∈ firstEffect keys writes, ¬ w.HasRoom keys
  deriving Decidable

/-- No entry has a generation that the writes will draw. -/
def GensFresh (entries : List AttrEntry) (gen : Nat) (writes : List AttrWrite) : Prop :=
  ∀ e ∈ entries, e.gen ∉ drawnGens gen writes
  deriving Decidable

section Failure

variable {entries : List AttrEntry} {gen : Nat} {writes : List AttrWrite}

theorem keySet_congr {entries'} (same : contents entries' = contents entries) : keySet entries' = keySet entries := by
  ext key
  rw [mem_keySet, mem_keySet, same]

variable {w : AttrWrite} {keys : Finset Bytes}

theorem applyWrites_skip (skipped : w.isDelete = true ∧ w.key ∉ keySet entries) :
    applyWrites entries gen (w :: writes) = applyWrites entries gen writes := by
  have applied : applyWrite entries gen w = some (entries, gen) := by
    rw [applyWrite, findEntry_none_iff.mpr skipped.2, skipped.1]
    rfl
  rw [applyWrites, applied]

theorem onKeys_skip (skipped : w.isDelete = true ∧ w.key ∉ keys) : w.onKeys keys = keys := by
  rw [AttrWrite.onKeys, if_pos skipped.1, Finset.erase_eq_of_notMem skipped.2]

theorem firstEffect_skip
    (skipped : w.isDelete = true ∧ w.key ∉ keys) : firstEffect keys (w :: writes) = firstEffect keys writes := by
  simp [firstEffect, skipped.1, skipped.2]

theorem firstEffect_here (effect : ¬ (w.isDelete = true ∧ w.key ∉ keys)) : firstEffect keys (w :: writes) = some w := by
  rw [firstEffect, List.find?_cons_of_pos]
  simpa [or_iff_not_imp_left] using effect

theorem applyWrites_nothing (gen : Nat) (distinct : Distinct entries)
    (nothing : ∃ w ∈ firstEffect (keySet entries) writes, ¬ w.HasRoom (keySet entries)) :
    applyWrites entries gen writes = ((entries, gen), false) := by
  induction writes with
  | nil => simp [firstEffect] at nothing
  | cons w rest ih =>
    by_cases skipped : w.isDelete = true ∧ w.key ∉ keySet entries
    · rw [firstEffect_skip skipped] at nothing
      rw [applyWrites_skip skipped, ih nothing]
    · rw [firstEffect_here skipped] at nothing
      obtain ⟨_, here, full⟩ := nothing
      cases here
      rw [applyWrites, applyWrite_full distinct full]

theorem applyWrites_partial (distinct : Distinct entries) (bounded : ∀ w ∈ writes, w.Bounded)
    (fresh : GensFresh entries gen writes) (lost : ¬ AllOrNothing (keySet entries) writes) :
    contents (applyWrites entries gen writes).1.1 ≠ contents entries := by
  induction writes with
  | nil => exact absurd (.inl trivial) lost
  | cons w rest ih =>
    rw [List.forall_mem_cons] at bounded
    by_cases skipped : w.isDelete = true ∧ w.key ∉ keySet entries
    · rw [applyWrites_skip skipped]
      refine ih bounded.2 (fun e member drawn => fresh e member ?_) fun h => lost ?_
      · rwa [drawnGens, if_pos skipped.1]
      · rw [AllOrNothing, AllRoom, onKeys_skip skipped, firstEffect_skip skipped]
        exact h.imp_left fun rest_room => ⟨.inl skipped.1, rest_room⟩
    · simp only [AllOrNothing, firstEffect_here skipped, not_or, not_exists, not_and, not_not] at lost
      have has_room := lost.2 w rfl
      intro same
      have full := (applyWrites_full gen distinct (List.forall_mem_cons.mpr bounded) lost.1).2
      rcases applyWrites_cons distinct bounded.1 with ⟨-, entries', distinct', updated, -, step⟩ | ⟨no_room, -⟩
      · by_cases present : w.key ∈ keySet entries
        · -- the old generation of the key is gone for good
          have later := (applyWrites_contents distinct' bounded.2 w.key).mono (drawnGens_cons gen w)
          rw [updated, ← step, same] at later
          obtain ⟨⟨value, old⟩, found⟩ := isSome_iff_exists.mp (mem_keySet.mp present)
          have drawn : OldOrDrawn _ none _ := later.drawn (w.onMap_self _)
          rw [found] at drawn
          simp only [OldOrDrawn, reduceCtorEq, Option.some.injEq, Prod.mk.injEq, false_or] at drawn
          obtain ⟨_, _, member, -, rfl⟩ := drawn
          rw [contents, map_eq_some_iff] at found
          obtain ⟨e, at_key, pair⟩ := found
          cases pair
          exact fresh e (mem_of_lookup at_key) member
        · -- the table had room and is full now
          rw [keySet_congr same] at full
          rcases has_room with del | h | h
          · exact skipped ⟨del, present⟩
          · exact present h
          · omega
      · exact no_room has_room

end Failure

namespace AttrStore

/-- **Commit is all or nothing**: an error leaves the committed map as it was, success applies every
staged write to it. -/
def CommitAtomic (st : AttrStore) (txnId : Nat) : Prop :=
  ((st.txnCommit txnId).2 = false → contents (st.txnCommit txnId).1.entries = contents st.entries) ∧
    ((st.txnCommit txnId).2 = true → ∃ k, st.findTxn txnId = some k ∧
      contents (st.txnCommit txnId).1.entries = overlay (contents st.entries) st.nextGen (st.txns k).writeSet)

/-- Staged keys and values fit their fields. -/
def StagedBounded (st : AttrStore) : Prop := ∀ k, ∀ w ∈ (st.txns k).writeSet, w.Bounded
  deriving Decidable

/-- A transaction that passes the conflict check finds room for all of its writes, or none for the
first that does anything. -/
def CommitFits (st : AttrStore) (txnId : Nat) : Prop :=
  ∀ k ∈ st.findTxn txnId, st.unchanged (st.txns k) = true → AllOrNothing (keySet st.entries) (st.txns k).writeSet
  deriving Decidable

theorem txnCommit_cases (st : AttrStore) (txnId : Nat) : (st.findTxn txnId = none ∧ st.txnCommit txnId = (st, false)) ∨
    ∃ k, st.findTxn txnId = some k ∧
      ((st.unchanged (st.txns k) = false ∧ st.txnCommit txnId = (st.clearTxn k, false)) ∨
        (st.unchanged (st.txns k) = true ∧
          st.txnCommit txnId =
            ({ st.clearTxn k with
                entries := (applyWrites st.entries st.nextGen (st.txns k).writeSet).1.1
                nextGen := (applyWrites st.entries st.nextGen (st.txns k).writeSet).1.2 },
              (applyWrites st.entries st.nextGen (st.txns k).writeSet).2))) := by
  unfold txnCommit
  cases found : st.findTxn txnId with
  | none => exact .inl ⟨rfl, rfl⟩
  | some k =>
    refine .inr ⟨k, rfl, ?_⟩
    cases same : st.unchanged (st.txns k) with
    | false => exact .inl ⟨rfl, by simp [same]⟩
    | true => exact .inr ⟨rfl, by simp [same]⟩

/-- **Commit is atomic when the transaction fits.** Conversely, as long as generations are not drawn
twice, a commit that does not fit leaves a partly written table behind an error. -/
theorem commit_atomic_iff_fits (st : AttrStore) (txnId : Nat) (distinct : Distinct st.entries) (bounded : st.StagedBounded) :
    (st.CommitFits txnId → st.CommitAtomic txnId) ∧
      ((∀ k, GensFresh st.entries st.nextGen (st.txns k).writeSet) → st.CommitAtomic txnId → st.CommitFits txnId) := by
  rcases st.txnCommit_cases txnId with ⟨missing, result⟩ | ⟨k, found, ⟨conflict, result⟩ | ⟨valid, result⟩⟩
  · simp [CommitAtomic, CommitFits, missing, result]
  · simp [CommitAtomic, CommitFits, found, conflict, result, clearTxn, setTxn]
  · have fits : st.CommitFits txnId ↔ AllOrNothing (keySet st.entries) (st.txns k).writeSet := by
      simp [CommitFits, found, valid]
    rw [fits]
    constructor
    · rintro (room | nothing)
      · obtain ⟨ok, applied, -⟩ := applyWrites_room st.nextGen distinct (bounded k) room
        refine ⟨fun failed => ?_, fun _ => ⟨k, found, ?_⟩⟩
        · rw [result, ok] at failed
          exact absurd failed (by decide)
        · rw [result, applied]
      · have kept := applyWrites_nothing st.nextGen distinct nothing
        refine ⟨fun _ => by rw [result, kept], fun ok => ?_⟩
        rw [result, kept] at ok
        exact absurd ok Bool.false_ne_true
    · intro fresh atomic
      by_contra lost
      have no_room : ¬ AllRoom (keySet st.entries) (st.txns k).writeSet := fun h => lost (.inl h)
      have failed := (applyWrites_full st.nextGen distinct (bounded k) no_room).1
      refine applyWrites_partial distinct (bounded k) (fresh k) lost ?_
      have kept := atomic.1 (by rw [result, failed])
      rwa [result] at kept

def filled (n : Nat) : AttrStore where
  entries := (List.range n).map fun i => ⟨[i.toUInt8], [], i + 1⟩
  nextGen := n + 1
  txns := fun k => if k.val = 0 then
      { inUse := true, txnId := 1, readSet := [⟨[100], 0⟩, ⟨[101], 0⟩]
        writeSet := [⟨[100], [1], false⟩, ⟨[101], [1], false⟩] }
    else {}

theorem filled_commit_atomic : (filled 62).CommitFits 1 ∧ (filled 62).CommitAtomic 1 := by
  have fits : (filled 62).CommitFits 1 := by decide +kernel
  exact ⟨fits, (commit_atomic_iff_fits (filled 62) 1 (by decide +kernel) (by decide +kernel)).1 fits⟩

theorem commit_keeps_half : ¬ (filled 63).CommitAtomic 1 := by
  rintro ⟨unchanged_on_error, -⟩
  have failed : ((filled 63).txnCommit 1).2 = false := by decide +kernel
  have written : contents ((filled 63).txnCommit 1).1.entries [100] = some ([1], 64) := by decide +kernel
  rw [unchanged_on_error failed] at written
  exact absurd written (by decide +kernel)

end AttrStore

end Lumimux.Attr
