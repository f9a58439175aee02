import Mathlib.Data.List.Sort
import Lumimux.Attr.Calls
import Lumimux.Lib.Lines

/-!
# The attribute file

One line `key=value` per entry, split at the first equals sign.
-/

namespace Lumimux.Attr
open Lib Option Function
open List hiding lookup map_map
open AttrStore

def equalsSign : UInt8 := 61

def AttrEntry.line (e : AttrEntry) : Bytes := e.key ++ equalsSign :: e.value ++ [newline]

def AttrStore.save (st : AttrStore) : Bytes :=
  ((st.entries.insertionSort fun a b => a.key ≤ b.key).map AttrEntry.line).flatten

def lineText (line : Bytes) : Bytes :=
  let text := line.takeWhile (· ≠ 0)
  if text.getLast? = some newline then text.dropLast else text

namespace AttrStore

def loadLine (st : AttrStore) (line : Bytes) : Option AttrStore :=
  let text := lineText line
  if text.isEmpty then some st
  else
    match text.dropWhile (· ≠ equalsSign) with
    | [] => some st
    | _ :: value =>
      if st.entries.length ≥ attrMaxKeys then none
      else some { st with
        entries := st.entries ++
          [⟨copyString attrMaxKeyLen (text.takeWhile (· ≠ equalsSign)), copyString attrMaxValueLen value, st.nextGen⟩]
        nextGen := (st.nextGen + 1) % 2 ^ 64 }

def loadLines (st : AttrStore) : List Bytes → AttrStore
  | [] => st
  | line :: rest =>
    match st.loadLine line with
    | none => st
    | some st => loadLines st rest

def load (st : AttrStore) (file : Bytes) : AttrStore :=
  st.loadLines (fgetsLines (attrMaxKeyLen + attrMaxValueLen + 4 - 1) [] file)

structure Stored (st : AttrStore) : Prop where
  distinct : Distinct st.entries
  count : st.entries.length ≤ attrMaxKeys
  fits : ∀ e ∈ st.entries, e.key.length < attrMaxKeyLen ∧ e.value.length < attrMaxValueLen
  staged : st.StagedBounded

/-- No key or value holds a byte that the file gives a meaning. -/
def Plain (st : AttrStore) : Prop :=
  ∀ e ∈ st.entries, (equalsSign ∉ e.key ∧ newline ∉ e.key ∧ 0 ∉ e.key) ∧ newline ∉ e.value ∧ 0 ∉ e.value
  deriving Decidable

/-- The map survives the file. -/
def RoundTrips (st : AttrStore) : Prop := valueOf (load {} st.save).entries = valueOf st.entries

end AttrStore

theorem lineText_plain {line} (plain : newline ∉ line.dropLast) : newline ∉ lineText line ∧ 0 ∉ lineText line := by
  have nonzero : 0 ∉ line.takeWhile (· ≠ 0) := fun inside => by simpa using mem_takeWhile_imp inside
  have inner : newline ∉ (line.takeWhile (· ≠ 0)).dropLast := by
    obtain ⟨tail, split⟩ := List.takeWhile_prefix (p := (· ≠ 0)) (l := line)
    intro inside
    rw [← split] at plain
    rcases eq_or_ne tail [] with rfl | more
    · rw [append_nil] at plain
      exact plain inside
    · rw [dropLast_append_of_ne_nil more] at plain
      exact plain (mem_append_left _ (mem_of_mem_dropLast inside))
  unfold lineText
  generalize line.takeWhile (· ≠ 0) = text at nonzero inner
  dsimp only
  split
  · exact ⟨inner, fun inside => nonzero (mem_of_mem_dropLast inside)⟩
  · rename_i open_end
    refine ⟨fun inside => ?_, nonzero⟩
    rcases eq_nil_or_concat text with rfl | ⟨xs, x, rfl⟩
    · cases inside
    · rw [concat_eq_append] at inner open_end inside
      rw [dropLast_concat] at inner
      rw [getLast?_concat, Option.some.injEq] at open_end
      rcases mem_append.mp inside with before | last
      · exact inner before
      · exact open_end (mem_singleton.mp last).symm

theorem loadLines_plain {st : AttrStore} {lines : List Bytes} (plain : st.Plain)
    (ends : ∀ line ∈ lines, newline ∉ line.dropLast) : (st.loadLines lines).Plain := by
  induction lines generalizing st with
  | nil => exact plain
  | cons line rest ih =>
    rw [forall_mem_cons] at ends
    obtain ⟨no_newline, no_zero⟩ := lineText_plain ends.1
    rw [loadLines, loadLine]
    generalize lineText line = text at no_newline no_zero
    by_cases blank : text.isEmpty
    · rw [if_pos blank]
      exact ih plain ends.2
    · rw [if_neg blank]
      cases split : text.dropWhile (· ≠ equalsSign) with
      | nil => exact ih plain ends.2
      | cons b value =>
        by_cases full : st.entries.length ≥ attrMaxKeys
        · simpa only [if_pos full] using plain
        · simp only [if_neg full]
          refine ih ?_ ends.2
          intro e member
          rcases mem_append.mp member with old | new
          · exact plain e old
          · rw [mem_singleton.mp new]
            have key_part : ∀ x ∈ copyString attrMaxKeyLen (text.takeWhile (· ≠ equalsSign)), x ∈ text ∧ x ≠ equalsSign := by
              intro x inside
              have taken := mem_of_mem_take inside
              exact ⟨(List.takeWhile_prefix _).mem taken, by simpa using mem_takeWhile_imp taken⟩
            have value_part : ∀ x ∈ copyString attrMaxValueLen value, x ∈ text := by
              intro x inside
              refine (dropWhile_suffix (· ≠ equalsSign)).mem ?_
              rw [split]
              exact mem_cons_of_mem _ (mem_of_mem_take inside)
            exact ⟨⟨fun h => (key_part _ h).2 rfl, fun h => no_newline (key_part _ h).1, fun h => no_zero (key_part _ h).1⟩,
              fun h => no_newline (value_part _ h), fun h => no_zero (value_part _ h)⟩

section ReadBack

variable {entries : List AttrEntry}

def AttrEntry.pair (e : AttrEntry) : Bytes × Bytes := (e.key, e.value)

theorem valueOf_eq_pairs (entries : List AttrEntry) (key : Bytes) :
    valueOf entries key = (lookup Prod.fst (entries.map AttrEntry.pair) key).map Prod.snd := by
  rw [valueOf, contents, lookup, lookup, find?_map, map_map, map_map]
  rfl

theorem fgetsLines_entries (fits : ∀ e ∈ entries, e.key.length < attrMaxKeyLen ∧ e.value.length < attrMaxValueLen)
    (plain : ∀ e ∈ entries, newline ∉ e.key ∧ newline ∉ e.value) :
    fgetsLines (attrMaxKeyLen + attrMaxValueLen + 4 - 1) [] (entries.map AttrEntry.line).flatten =
      entries.map AttrEntry.line := by
  induction entries with
  | nil => rfl
  | cons e rest ih =>
    rw [forall_mem_cons] at fits plain
    have inside : newline ∉ e.key ++ equalsSign :: e.value := by
      rw [mem_append, mem_cons, not_or, not_or]
      exact ⟨plain.1.1, by decide, plain.1.2⟩
    have short : (e.key ++ equalsSign :: e.value).length + 1 ≤ attrMaxKeyLen + attrMaxValueLen + 4 - 1 := by
      simp only [length_append, length_cons]
      omega
    have whole : e.line ++ (rest.map AttrEntry.line).flatten =
        (e.key ++ equalsSign :: e.value) ++ newline :: (rest.map AttrEntry.line).flatten := by
      simp [AttrEntry.line]
    rw [map_cons, flatten_cons, whole, fgetsLines_line inside (by simpa using short), ih fits.2 plain.2]
    rfl

theorem lineText_entry {e : AttrEntry} (zero : 0 ∉ e.key ∧ 0 ∉ e.value) : lineText e.line = e.key ++ equalsSign :: e.value := by
  have whole : e.line.takeWhile (· ≠ 0) = e.line := by
    rw [takeWhile_eq_self_iff]
    intro x inside
    rw [decide_eq_true_iff]
    rintro rfl
    simp only [AttrEntry.line, mem_append, mem_cons, not_mem_nil, or_false] at inside
    rcases inside with (h | h | h) | h
    · exact zero.1 h
    · exact absurd h (by decide)
    · exact zero.2 h
    · exact absurd h (by decide)
  rw [lineText, whole, AttrEntry.line]
  simp only [getLast?_concat, if_true, dropLast_concat]

theorem loadLine_entry {st : AttrStore} {e : AttrEntry} (room : st.entries.length < attrMaxKeys)
    (fits : e.key.length < attrMaxKeyLen ∧ e.value.length < attrMaxValueLen)
    (equals : equalsSign ∉ e.key) (zero : 0 ∉ e.key ∧ 0 ∉ e.value) : st.loadLine e.line = some { st with
      entries := st.entries ++ [⟨e.key, e.value, st.nextGen⟩]
      nextGen := (st.nextGen + 1) % 2 ^ 64 } := by
  have before : ∀ x ∈ e.key, (decide (x ≠ equalsSign)) = true := by
    intro x inside
    rw [decide_eq_true_iff]
    rintro rfl
    exact equals inside
  have key_part : (e.key ++ equalsSign :: e.value).takeWhile (· ≠ equalsSign) = e.key := by
    rw [takeWhile_append_of_pos before]
    simp
  have value_part : (e.key ++ equalsSign :: e.value).dropWhile (· ≠ equalsSign) = equalsSign :: e.value := by
    rw [dropWhile_append_of_pos before]
    simp
  have text : (e.key ++ equalsSign :: e.value).isEmpty = false := by simp
  unfold loadLine
  rw [lineText_entry zero]
  simp only [text, key_part, value_part, Bool.false_eq_true, if_false, if_neg (Nat.not_le_of_lt room),
    copyString_of_lt fits.1, copyString_of_lt fits.2]

theorem loadLines_entries {st : AttrStore} (room : st.entries.length + entries.length ≤ attrMaxKeys)
    (fits : ∀ e ∈ entries, e.key.length < attrMaxKeyLen ∧ e.value.length < attrMaxValueLen)
    (equals : ∀ e ∈ entries, equalsSign ∉ e.key) (zero : ∀ e ∈ entries, 0 ∉ e.key ∧ 0 ∉ e.value) :
    (st.loadLines (entries.map AttrEntry.line)).entries.map AttrEntry.pair =
      st.entries.map AttrEntry.pair ++ entries.map AttrEntry.pair := by
  induction entries generalizing st with
  | nil => simp [loadLines]
  | cons e rest ih =>
    rw [forall_mem_cons] at fits equals zero
    rw [length_cons] at room
    rw [map_cons, loadLines, loadLine_entry (by omega) fits.1 equals.1 zero.1]
    rw [ih (by simp only [length_append, length_singleton]; omega) fits.2 equals.2 zero.2]
    simp [AttrEntry.pair]

end ReadBack

theorem roundTrips_iff {st : AttrStore} (stored : Stored st) : st.RoundTrips ↔ st.Plain := by
  have perm : (st.entries.insertionSort fun a b => a.key ≤ b.key).Perm st.entries := perm_insertionSort _ _
  have in_order : valueOf (st.entries.insertionSort fun a b => a.key ≤ b.key) = valueOf st.entries := by
    have same := lookup_perm perm.symm stored.distinct
    funext key
    rw [valueOf, valueOf, contents, contents, same]
  constructor
  · intro same e member
    have loaded : (load {} st.save).Plain :=
      loadLines_plain (by simp [Plain]) fun line inside => fgetsLines_newline (by simp) inside
    have here : valueOf st.entries e.key = some e.value := by
      rw [valueOf, contents, (lookup_eq_some_iff stored.distinct).mpr ⟨member, rfl⟩]
      rfl
    rw [← same, valueOf, contents, map_map, map_eq_some_iff] at here
    obtain ⟨e', found, value⟩ := here
    have carried := loaded e' (mem_of_lookup found)
    rw [key_of_lookup found, show e'.value = e.value from value] at carried
    exact carried
  · intro plain
    have sorted : ∀ {P : AttrEntry → Prop}, (∀ e ∈ st.entries, P e) →
        ∀ e ∈ st.entries.insertionSort fun a b => a.key ≤ b.key, P e := fun h e member => h e (perm.mem_iff.mp member)
    unfold RoundTrips
    rw [← in_order, load, save,
      fgetsLines_entries (sorted stored.fits) (sorted fun e member => ⟨(plain e member).1.2.1, (plain e member).2.1⟩)]
    funext key
    rw [valueOf_eq_pairs, valueOf_eq_pairs, loadLines_entries (by simpa [perm.length_eq] using stored.count)
      (sorted stored.fits) (sorted fun e member => (plain e member).1.1)
      (sorted fun e member => ⟨(plain e member).1.2.2, (plain e member).2.2⟩)]
    rfl

def EntriesFit (entries : List AttrEntry) : Prop :=
  entries.length ≤ attrMaxKeys ∧ ∀ e ∈ entries, e.key.length < attrMaxKeyLen ∧ e.value.length < attrMaxValueLen

theorem copyString_lt {size} (text : Bytes) (positive : 0 < size) : (copyString size text).length < size := by
  rw [copyString, length_take]
  omega

theorem applyWrite_entriesFit {entries entries' gen gen' w} (fit : EntriesFit entries)
    (applied : applyWrite entries gen w = some (entries', gen')) : EntriesFit entries' := by
  unfold applyWrite at applied
  cases found : findEntry entries w.key with
  | none =>
    rw [found] at applied
    dsimp only at applied
    split_ifs at applied with del full
    · cases applied
      exact fit
    · cases applied
      refine ⟨by rw [length_append, length_singleton]; omega, ?_⟩
      rw [forall_mem_append, forall_mem_singleton]
      exact ⟨fit.2, copyString_lt _ (by decide), copyString_lt _ (by decide)⟩
  | some i =>
    rw [found] at applied
    rw [findEntry_eq] at found
    obtain ⟨xs, e, zs, rfl, rfl, -⟩ := split_of_findIdx found
    dsimp only at applied
    split_ifs at applied with del
    · cases applied
      have perm := swapRemove_perm xs e zs
      have kept : EntriesFit (xs ++ zs) := by
        refine ⟨?_, fun a member => fit.2 a ?_⟩
        · have := fit.1
          simp only [length_append, length_cons] at this ⊢
          omega
        · simp only [mem_append, mem_cons] at member ⊢
          tauto
      exact ⟨perm.length_eq ▸ kept.1, fun a member => kept.2 a (perm.mem_iff.mp member)⟩
    · cases applied
      rw [modify_middle]
      refine ⟨by simpa using fit.1, fun a member => ?_⟩
      have old := fit.2 e (by simp)
      rcases mem_append.mp member with before | h
      · exact fit.2 a (mem_append_left _ before)
      · rcases mem_cons.mp h with rfl | behind
        · exact ⟨old.1, copyString_lt _ (by decide)⟩
        · exact fit.2 a (mem_append_right _ (mem_cons_of_mem _ behind))

theorem applyWrites_entriesFit {entries} (gen : Nat) (writes : List AttrWrite) (fit : EntriesFit entries) :
    EntriesFit (applyWrites entries gen writes).1.1 := by
  induction writes generalizing entries gen with
  | nil => exact fit
  | cons w rest ih =>
    rw [applyWrites]
    cases applied : applyWrite entries gen w with
    | none => exact fit
    | some next => exact ih _ (applyWrite_entriesFit fit applied)

section Reach

variable {st : AttrStore}

theorem stagedBounded_set {t k} (staged : st.StagedBounded) (bounded : ∀ w ∈ t.writeSet, w.Bounded) :
    (st.setTxn k t).StagedBounded := by
  intro k'
  rcases eq_or_ne k' k with rfl | other
  · simpa only [setTxn, update_self] using bounded
  · simpa only [setTxn, update_of_ne other] using staged k'

theorem AttrStore.Stored.setTxn (stored : Stored st) (k : Fin attrTxnMax) {t} (bounded : ∀ w ∈ t.writeSet, w.Bounded) :
    Stored (st.setTxn k t) :=
  ⟨stored.distinct, stored.count, stored.fits, stagedBounded_set stored.staged bounded⟩

theorem AttrStore.Stored.clearTxn (stored : Stored st) (k : Fin attrTxnMax) : Stored (st.clearTxn k) :=
  stored.setTxn k (by simp)

theorem call_stored (st : AttrStore) (c : Call) (stored : Stored st) : Stored (st.call c).1 := by
  cases c with
  | begin clientFd =>
    rcases txnBegin_cases st clientFd with ⟨-, h⟩ | ⟨k, -, h⟩ <;> simp only [call, h]
    · exact stored
    · have opened : Stored (st.setTxn k { inUse := true, clientFd := clientFd, txnId := st.nextTxnId }) :=
        stored.setTxn k (by simp)
      exact ⟨opened.distinct, opened.count, opened.fits, opened.staged⟩
  | op txnId op =>
    simp only [call]
    cases found : st.findTxn txnId with
    | none =>
      rw [perform_closed found]
      exact stored
    | some k =>
      rw [perform_open found]
      exact stored.setTxn k ((st.txns k).after_bounded _ op (stored.staged k))
  | commit txnId =>
    rcases st.txnCommit_cases txnId with ⟨-, h⟩ | ⟨k, -, ⟨-, h⟩ | ⟨-, h⟩⟩ <;> simp only [call, h]
    · exact stored
    · exact stored.clearTxn k
    · have fit := applyWrites_entriesFit st.nextGen (st.txns k).writeSet ⟨stored.count, stored.fits⟩
      exact ⟨applyWrites_distinct stored.distinct (stored.staged k), fit.1, fit.2, (stored.clearTxn k).staged⟩
  | rollback txnId =>
    rcases txnRollback_cases st txnId with h | ⟨k, -, h⟩ <;> simp only [call, h]
    · exact stored
    · exact stored.clearTxn k

end Reach

def AttrStore.after (st : AttrStore) (calls : List Call) : AttrStore := calls.foldl (fun st c => (st.call c).1) st

theorem stored_init : Stored {} := ⟨by decide, by decide, by simp, fun _ => by simp⟩

theorem after_stored (calls : List Call) : Stored (AttrStore.after {} calls) :=
  run_invariant_rule call_stored stored_init calls

/-- **Persistence round trip**: whatever calls a new store has answered, its map survives the file
exactly when no key holds an equals sign and no key or value a newline or a terminator. -/
theorem run_roundTrips_iff (calls : List Call) : (AttrStore.after {} calls).RoundTrips ↔ (AttrStore.after {} calls).Plain :=
  roundTrips_iff (after_stored calls)

theorem twoLines_lost :
    ¬ (AttrStore.after {} [.begin none, .op 1 (.set (ascii "motd") (ascii "hello\nworld")), .commit 1]).RoundTrips := by
  intro same
  have stored := congrFun same (ascii "motd")
  exact absurd stored (by decide +kernel)

end Lumimux.Attr
