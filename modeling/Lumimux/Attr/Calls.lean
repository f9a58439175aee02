import Lumimux.Attr.Commit
import Lumimux.Lib.Run

/-!
# Calls on an attribute store

An operation of an open transaction changes only that transaction, and its answer depends only on it and on the value of
its key; a commit is the only call that changes the entries.
-/

namespace Lumimux.Attr
open Lib List

/-- An operation inside a transaction. -/
inductive Op where
  | get (key : Bytes) (valueMax : Nat)
  | set (key value : Bytes)
  | delete (key : Bytes)
  deriving DecidableEq, Repr

def Op.key : Op → Bytes
  | .get key _ => key
  | .set key _ => key
  | .delete key => key

inductive Call where
  | begin (clientFd : Option Nat)
  | op (txnId : Nat) (op : Op)
  | commit (txnId : Nat)
  | rollback (txnId : Nat)
  deriving DecidableEq, Repr

inductive Reply where
  | began (txnId : Option Nat)
  | value (found : Option Bytes)
  | status (ok : Bool)
  deriving DecidableEq, Repr

namespace AttrStore

def perform (st : AttrStore) (txnId : Nat) : Op → AttrStore × Reply
  | .get key valueMax => ((st.get txnId key valueMax).1, .value (st.get txnId key valueMax).2)
  | .set key value => ((st.set txnId key value).1, .status (st.set txnId key value).2)
  | .delete key => ((st.delete txnId key).1, .status (st.delete txnId key).2)

def call (st : AttrStore) : Call → AttrStore × Reply
  | .begin clientFd => ((st.txnBegin clientFd).1, .began (st.txnBegin clientFd).2)
  | .op txnId op => st.perform txnId op
  | .commit txnId => ((st.txnCommit txnId).1, .status (st.txnCommit txnId).2)
  | .rollback txnId => (st.txnRollback txnId, .status true)

def valueOf (entries : List AttrEntry) (key : Bytes) : Option Bytes :=
  (contents entries key).map Prod.fst

theorem valueOf_isSome {entries key} : (valueOf entries key).isSome ↔ key ∈ keySet entries := by
  rw [valueOf, Option.isSome_map, mem_keySet]

theorem find_map_value (entries : List AttrEntry) (key : Bytes) (valueMax : Nat) :
    ((entries.find? (·.key == key)).map fun e => copyString valueMax e.value) =
      (valueOf entries key).map (copyString valueMax) := by
  rw [find_eq_lookup, valueOf, contents, Option.map_map, Option.map_map]
  rfl

end AttrStore

open AttrStore

namespace AttrTxn

def afterStage (t : AttrTxn) (gen : Nat) (key value : Bytes) (isDelete : Bool) : AttrTxn :=
  match t.touchRead key gen with
  | none => t
  | some touched => (touched.stage key value isDelete).getD touched

def after (t : AttrTxn) (gen : Nat) : Op → AttrTxn
  | .get key _ => (t.touchRead key gen).getD t
  | .set key value =>
    if key.length = 0 ∨ key.length ≥ attrMaxKeyLen ∨ value.length ≥ attrMaxValueLen then t
    else t.afterStage gen key (copyString attrMaxValueLen value) false
  | .delete key => t.afterStage gen key [] true

def stages (t : AttrTxn) (key value : Bytes) (isDelete : Bool) : Bool :=
  match t.touchRead key 0 with
  | none => false
  | some touched => (touched.stage key value isDelete).isSome

def answer (t : AttrTxn) (value : Option Bytes) : Op → Reply
  | .get key valueMax =>
    .value (match t.touchRead key 0 with
      | none => none
      | some _ =>
        match t.writeSet.find? (·.key == key) with
        | some w => if w.isDelete then none else some (copyString valueMax w.value)
        | none => value.map (copyString valueMax))
  | .set key value =>
    .status (if key.length = 0 ∨ key.length ≥ attrMaxKeyLen ∨ value.length ≥ attrMaxValueLen then false
      else t.stages key (copyString attrMaxValueLen value) false)
  | .delete key => .status (t.stages key [] true)

section Touch

variable {t : AttrTxn} {key : Bytes} {gen : Nat}

theorem touchRead_cases (t : AttrTxn) (key : Bytes) (gen : Nat) :
    ((∃ r ∈ t.readSet, r.key = key) ∧ t.touchRead key gen = some t) ∨
    ((∀ r ∈ t.readSet, r.key ≠ key) ∧ t.readSet.length ≥ attrTxnKeysMax ∧ t.touchRead key gen = none) ∨
    ((∀ r ∈ t.readSet, r.key ≠ key) ∧ t.readSet.length < attrTxnKeysMax ∧
      t.touchRead key gen = some { t with readSet := t.readSet ++ [⟨copyString attrMaxKeyLen key, gen⟩] }) := by
  unfold touchRead
  by_cases known : ∃ r ∈ t.readSet, r.key = key
  · exact .inl ⟨known, if_pos (by simpa using known)⟩
  · have unknown : ∀ r ∈ t.readSet, r.key ≠ key := fun r member same => known ⟨r, member, same⟩
    rw [if_neg (by simpa using unknown)]
    by_cases full : t.readSet.length ≥ attrTxnKeysMax
    · exact .inr (.inl ⟨unknown, full, if_pos full⟩)
    · exact .inr (.inr ⟨unknown, Nat.lt_of_not_le full, if_neg full⟩)

theorem stage_cases (t : AttrTxn) (key value : Bytes) (isDelete : Bool) : (∃ i, t.stage key value isDelete =
      some { t with writeSet := t.writeSet.modify i fun w => { w with value := value, isDelete := isDelete } }) ∨
    t.stage key value isDelete = none ∨
    t.stage key value isDelete =
      some { t with writeSet := t.writeSet ++ [⟨copyString attrMaxKeyLen key, value, isDelete⟩] } := by
  unfold stage
  cases t.findWrite key with
  | some i => exact .inl ⟨i, rfl⟩
  | none =>
    by_cases full : t.writeSet.length ≥ attrTxnKeysMax
    · exact .inr (.inl (if_pos full))
    · exact .inr (.inr (if_neg full))

theorem stage_readSet {u value isDelete} (staged : t.stage key value isDelete = some u) :
    u.readSet = t.readSet ∧ u.inUse = t.inUse ∧ u.txnId = t.txnId := by
  rcases t.stage_cases key value isDelete with ⟨i, h⟩ | h | h <;> rw [staged] at h <;> cases h <;> exact ⟨rfl, rfl, rfl⟩

/-- The slot notes the key, unless it has it already. -/
structure Touches (t u : AttrTxn) (key : Bytes) (gen : Nat) : Prop where
  inUse : u.inUse = t.inUse
  txnId : u.txnId = t.txnId
  readSet : u.readSet = t.readSet ∨
    (∀ r ∈ t.readSet, r.key ≠ key) ∧ u.readSet = t.readSet ++ [⟨copyString attrMaxKeyLen key, gen⟩]

theorem touchRead_touches {u} (touched : t.touchRead key gen = some u) : Touches t u key gen := by
  rcases t.touchRead_cases key gen with ⟨-, h⟩ | ⟨-, -, h⟩ | ⟨fresh, -, h⟩ <;> rw [touched] at h <;> cases h
  · exact ⟨rfl, rfl, .inl rfl⟩
  · exact ⟨rfl, rfl, .inr ⟨fresh, rfl⟩⟩

theorem afterStage_touches (t : AttrTxn) (gen : Nat) (key value : Bytes) (isDelete : Bool) :
    Touches t (t.afterStage gen key value isDelete) key gen := by
  unfold afterStage
  cases touched : t.touchRead key gen with
  | none => exact ⟨rfl, rfl, .inl rfl⟩
  | some u =>
    have grows := touchRead_touches touched
    cases staged : u.stage key value isDelete with
    | none => simpa only [staged, Option.getD_none] using grows
    | some v =>
      obtain ⟨same, inUse, txnId⟩ := stage_readSet staged
      simp only [staged, Option.getD_some]
      exact ⟨inUse.trans grows.inUse, txnId.trans grows.txnId, same ▸ grows.readSet⟩

theorem after_touches (t : AttrTxn) (gen : Nat) (op : Op) : Touches t (t.after gen op) op.key gen := by
  cases op with
  | get key valueMax =>
    simp only [after]
    cases touched : t.touchRead key gen with
    | none => exact ⟨rfl, rfl, .inl rfl⟩
    | some u => exact touchRead_touches touched
  | set key value =>
    simp only [after]
    split
    · exact ⟨rfl, rfl, .inl rfl⟩
    · exact afterStage_touches ..
  | delete key => exact afterStage_touches ..

end Touch

theorem after_bounded (t : AttrTxn) (gen : Nat) (op : Op) (bounded : ∀ w ∈ t.writeSet, w.Bounded) :
    ∀ w ∈ (t.after gen op).writeSet, w.Bounded := by
  have staging : ∀ key value isDelete, value.length < attrMaxValueLen →
      ∀ w ∈ (t.afterStage gen key value isDelete).writeSet, w.Bounded := by
    intro key value isDelete fits
    have touch_keeps : ∀ u ∈ t.touchRead key gen, u.writeSet = t.writeSet := by
      intro u touched
      rcases t.touchRead_cases key gen with ⟨-, h⟩ | ⟨-, -, h⟩ | ⟨-, -, h⟩ <;> rw [h] at touched <;> cases touched <;> rfl
    unfold afterStage
    cases touched : t.touchRead key gen with
    | none => exact bounded
    | some u =>
      rw [← touch_keeps u touched] at bounded
      rcases u.stage_cases key value isDelete with ⟨i, h⟩ | h | h <;> simp only [h, Option.getD_some, Option.getD_none]
      · intro w member
        obtain ⟨j, bound, rfl⟩ := getElem_of_mem member
        rw [length_modify] at bound
        have old := bounded _ (getElem_mem bound)
        rw [getElem_modify]
        split
        · exact ⟨old.1, fits⟩
        · exact old
      · exact bounded
      · intro w member
        rw [mem_append, mem_singleton] at member
        rcases member with old | rfl
        · exact bounded w old
        · exact ⟨by simp only [copyString, length_take, attrMaxKeyLen]; omega, fits⟩
  cases op with
  | get key valueMax =>
    simp only [after]
    rcases t.touchRead_cases key gen with ⟨-, h⟩ | ⟨-, -, h⟩ | ⟨-, -, h⟩ <;> rw [h] <;> exact bounded
  | set key value =>
    simp only [after]
    split
    · exact bounded
    · exact staging _ _ _ (by simp only [copyString, length_take, attrMaxValueLen]; omega)
  | delete key => exact staging _ _ _ (by decide)

structure Alike (t t' : AttrTxn) : Prop where
  touched : t.readSet.map AttrTouch.key = t'.readSet.map AttrTouch.key
  staged : t.writeSet = t'.writeSet

namespace Alike

variable {t t' : AttrTxn}

theorem refl (t : AttrTxn) : Alike t t := ⟨rfl, rfl⟩

section
variable (alike : Alike t t')
include alike

theorem touchRead (key : Bytes) (gen gen' : Nat) :
    (t.touchRead key gen = none ∧ t'.touchRead key gen' = none) ∨
      ∃ u u', t.touchRead key gen = some u ∧ t'.touchRead key gen' = some u' ∧ Alike u u' := by
  have known : t.readSet.any (·.key == key) = t'.readSet.any (·.key == key) := by
    have same := congrArg (List.any · (· == key)) alike.touched
    simp only [any_map] at same
    exact same
  have size : t.readSet.length = t'.readSet.length := by simpa using congrArg List.length alike.touched
  unfold AttrTxn.touchRead
  rw [known, size]
  split
  · exact .inr ⟨t, t', rfl, rfl, alike⟩
  · split
    · exact .inl ⟨rfl, rfl⟩
    · exact .inr ⟨_, _, rfl, rfl, by simp [alike.touched], alike.staged⟩

theorem stage (key value : Bytes) (isDelete : Bool) :
    (t.stage key value isDelete = none ∧ t'.stage key value isDelete = none) ∨
      ∃ u u', t.stage key value isDelete = some u ∧ t'.stage key value isDelete = some u' ∧ Alike u u' := by
  unfold AttrTxn.stage AttrTxn.findWrite
  rw [alike.staged]
  split
  · exact .inr ⟨_, _, rfl, rfl, alike.touched, rfl⟩
  · split
    · exact .inl ⟨rfl, rfl⟩
    · exact .inr ⟨_, _, rfl, rfl, alike.touched, rfl⟩

theorem afterStage (gen gen' : Nat) (key value : Bytes) (isDelete : Bool) :
    Alike (t.afterStage gen key value isDelete) (t'.afterStage gen' key value isDelete) := by
  unfold AttrTxn.afterStage
  rcases alike.touchRead key gen gen' with ⟨h, h'⟩ | ⟨u, u', h, h', touched⟩
  · rw [h, h']
    exact alike
  · rw [h, h']
    rcases touched.stage key value isDelete with ⟨w, w'⟩ | ⟨v, v', w, w', staged⟩
    · simpa only [w, w', Option.getD_none] using touched
    · simpa only [w, w', Option.getD_some] using staged

theorem stages (key value : Bytes) (isDelete : Bool) : t.stages key value isDelete = t'.stages key value isDelete := by
  unfold AttrTxn.stages
  rcases alike.touchRead key 0 0 with ⟨h, h'⟩ | ⟨u, u', h, h', touched⟩
  · rw [h, h']
  · rw [h, h']
    rcases touched.stage key value isDelete with ⟨w, w'⟩ | ⟨v, v', w, w', -⟩
    · simp only [w, w']
    · simp only [w, w', Option.isSome_some]

theorem after (gen gen' : Nat) (op : Op) : Alike (t.after gen op) (t'.after gen' op) := by
  cases op with
  | get key valueMax =>
    rcases alike.touchRead key gen gen' with ⟨h, h'⟩ | ⟨u, u', h, h', touched⟩
    · simpa only [AttrTxn.after, h, h', Option.getD_none] using alike
    · simpa only [AttrTxn.after, h, h', Option.getD_some] using touched
  | set key value =>
    simp only [AttrTxn.after]
    split
    · exact alike
    · exact alike.afterStage ..
  | delete key => exact alike.afterStage ..

theorem answer (value : Option Bytes) (op : Op) : t.answer value op = t'.answer value op := by
  cases op with
  | get key valueMax =>
    rcases alike.touchRead key 0 0 with ⟨h, h'⟩ | ⟨u, u', h, h', -⟩
    · simp only [AttrTxn.answer, h, h']
    · simp only [AttrTxn.answer, h, h', alike.staged]
  | set | delete => simp only [AttrTxn.answer, alike.stages]

end

end Alike

end AttrTxn

open AttrTxn (Alike)

section Slots

variable {st : AttrStore} {txnId : Nat} {k : Fin attrTxnMax}

theorem findTxn_spec (found : st.findTxn txnId = some k) : (st.txns k).inUse = true ∧ (st.txns k).txnId = txnId := by
  simpa using find?_some found

def IdsDistinct (st : AttrStore) : Prop :=
  ∀ k k', (st.txns k).inUse = true → (st.txns k').inUse = true → (st.txns k).txnId = (st.txns k').txnId → k = k'

theorem findTxn_eq (distinct : IdsDistinct st) (inUse : (st.txns k).inUse = true) : st.findTxn (st.txns k).txnId = some k := by
  cases found : st.findTxn (st.txns k).txnId with
  | none =>
    have missing := List.find?_eq_none.mp found k (mem_finRange k)
    simp [inUse] at missing
  | some k' =>
    obtain ⟨inUse', same⟩ := findTxn_spec found
    rw [distinct k' k inUse' inUse same]

theorem findTxn_none_spec (missing : st.findTxn txnId = none) (inUse : (st.txns k).inUse = true) :
    (st.txns k).txnId ≠ txnId := by
  have other := List.find?_eq_none.mp missing k (mem_finRange k)
  simpa [inUse] using other

theorem txnBegin_cases (st : AttrStore) (clientFd : Option Nat) :
    ((∀ k, (st.txns k).inUse = true) ∧ st.txnBegin clientFd = (st, none)) ∨
    ∃ k, (st.txns k).inUse = false ∧ st.txnBegin clientFd =
      ({ st.setTxn k { inUse := true, clientFd := clientFd, txnId := st.nextTxnId } with
          nextTxnId := (st.nextTxnId + 1) % 2 ^ 32 }, some st.nextTxnId) := by
  unfold txnBegin
  cases found : (finRange attrTxnMax).find? fun k => !(st.txns k).inUse with
  | none => exact .inl ⟨fun k => by simpa using List.find?_eq_none.mp found k (mem_finRange k), rfl⟩
  | some k => exact .inr ⟨k, by simpa using find?_some found, rfl⟩

theorem txnRollback_cases (st : AttrStore) (txnId : Nat) :
    st.txnRollback txnId = st ∨ ∃ k, st.findTxn txnId = some k ∧ st.txnRollback txnId = st.clearTxn k := by
  unfold txnRollback
  cases found : st.findTxn txnId with
  | none => exact .inl rfl
  | some k => exact .inr ⟨k, rfl, rfl⟩

end Slots

section Perform

variable {st : AttrStore} {txnId : Nat} {k : Fin attrTxnMax}

theorem setTxn_self (st : AttrStore) (k : Fin attrTxnMax) : st.setTxn k (st.txns k) = st := by
  rw [setTxn, Function.update_eq_self]

theorem touchAndStage_eq (st : AttrStore) (k : Fin attrTxnMax) (key value : Bytes) (isDelete : Bool) :
    st.touchAndStage k key value isDelete =
      (st.setTxn k ((st.txns k).afterStage (genOf st.entries key) key value isDelete),
        (st.txns k).stages key value isDelete) := by
  unfold touchAndStage touch AttrTxn.afterStage AttrTxn.stages
  rcases (Alike.refl (st.txns k)).touchRead key (genOf st.entries key) 0 with ⟨h, h'⟩ | ⟨u, u', h, h', touched⟩
  · simp only [h, h', setTxn_self]
  · simp only [h, h']
    rcases touched.stage key value isDelete with ⟨w, w'⟩ | ⟨v, v', w, w', -⟩
    · simp only [w, w', Option.getD_none, Option.isSome_none]
    · simp only [w, w', Option.getD_some, Option.isSome_some]

theorem perform_open (found : st.findTxn txnId = some k) (op : Op) : st.perform txnId op =
      (st.setTxn k ((st.txns k).after (genOf st.entries op.key) op),
        (st.txns k).answer (valueOf st.entries op.key) op) := by
  cases op with
  | get key valueMax =>
    simp only [perform, AttrStore.get, found, touch, AttrTxn.after, AttrTxn.answer, Op.key]
    rcases (Alike.refl (st.txns k)).touchRead key (genOf st.entries key) 0 with ⟨h, h'⟩ | ⟨u, u', h, h', -⟩
    · simp only [h, h', Option.getD_none, setTxn_self]
    · have staged : u.writeSet = (st.txns k).writeSet := by
        rcases (st.txns k).touchRead_cases key (genOf st.entries key) with ⟨-, e⟩ | ⟨-, -, e⟩ | ⟨-, -, e⟩ <;>
          rw [h] at e <;> cases e <;> rfl
      cases written : (st.txns k).writeSet.find? (·.key == key) <;>
        simp only [h, h', Option.getD_some, staged, find_map_value, written]
  | set key value =>
    simp only [perform, AttrStore.set, found, AttrTxn.after, AttrTxn.answer, Op.key, touchAndStage_eq]
    split
    · rw [setTxn_self]
    · rfl
  | delete key => simp only [perform, AttrStore.delete, found, AttrTxn.after, AttrTxn.answer, Op.key, touchAndStage_eq]

theorem perform_closed (missing : st.findTxn txnId = none) (op : Op) : (st.perform txnId op).1 = st := by
  cases op <;> simp [perform, AttrStore.get, AttrStore.set, AttrStore.delete, missing]

end Perform

end Lumimux.Attr
