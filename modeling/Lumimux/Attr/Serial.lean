import Lumimux.Attr.Calls

/-!
# Serial order of committed transactions

A transaction records the generation of each key at its first touch and commits only if they all still stand.
-/

namespace Lumimux.Attr
open Lib Function
open List hiding lookup
open AttrStore
open AttrTxn (Alike)

structure Record where
  op : Op
  reply : Reply
  reborn : Bool
  deriving DecidableEq, Repr

structure Journal where
  store : AttrStore
  performed : Nat → List Record := fun _ => []
  committed : List (List Record) := []

def AttrStore.reborn (st : AttrStore) (txnId : Nat) : Op → Bool
  | .get key _ => (st.findTxn txnId).any fun k =>
      (st.txns k).readSet.any (fun r => r.key == key && r.gen == 0) &&
        (!(st.txns k).writeSet.any (·.key == key) && (valueOf st.entries key).isSome)
  | _ => false

def Journal.step (j : Journal) (c : Call) : Journal :=
  match c, (j.store.call c).2 with
  | .begin _, .began (some txnId) =>
    { j with store := (j.store.call c).1, performed := Function.update j.performed txnId [] }
  | .op txnId op, reply =>
    { j with
      store := (j.store.call c).1
      performed := Function.update j.performed txnId (j.performed txnId ++ [⟨op, reply, j.store.reborn txnId op⟩]) }
  | .commit txnId, .status true =>
    { j with store := (j.store.call c).1, committed := j.committed ++ [j.performed txnId] }
  | _, _ => { j with store := (j.store.call c).1 }

def journal (st : AttrStore) (calls : List Call) : Journal := calls.foldl Journal.step { store := st }

def performAll (st : AttrStore) (txnId : Nat) : List Op → AttrStore × List Reply
  | [] => (st, [])
  | op :: rest =>
    let (st', replies) := performAll (st.perform txnId op).1 txnId rest
    (st', (st.perform txnId op).2 :: replies)

def alone (st : AttrStore) (ops : List Op) : AttrStore × List Reply × Bool :=
  match st.txnBegin none with
  | (st, none) => (st, [], false)
  | (st, some txnId) =>
    let (st, replies) := performAll st txnId ops
    ((st.txnCommit txnId).1, replies, (st.txnCommit txnId).2)

def serially (st : AttrStore) (programs : List (List Op)) : AttrStore × List (List Reply × Bool) :=
  programs.foldl (fun (st, results) ops => ((alone st ops).1, results ++ [(alone st ops).2])) (st, [])

/-- **Serializability**: the transactions that committed, run alone in the order of their commits,
commit with the same replies and leave the same map. -/
def Serializable (st : AttrStore) (calls : List Call) : Prop :=
  let j := journal st calls
  let serial := serially st (j.committed.map (·.map Record.op))
  serial.2 = j.committed.map (fun records => (records.map Record.reply, true)) ∧
    valueOf j.store.entries = valueOf serial.1.entries

def Within (st : AttrStore) : Call → Prop
  | .begin _ => st.findTxn st.nextTxnId = none
  | .op _ op => op.key.length < attrMaxKeyLen
  | .commit txnId => ∀ k ∈ st.findTxn txnId, st.unchanged (st.txns k) = true →
      AllRoom (keySet st.entries) (st.txns k).writeSet ∧ st.nextGen + (st.txns k).writeSet.length < 2 ^ 64
  | .rollback _ => True

instance (st : AttrStore) (c : Call) : Decidable (Within st c) := by
  cases c <;> unfold Within <;> infer_instance

structure Ordered (st : AttrStore) : Prop where
  distinct : Distinct st.entries
  started : 0 < st.nextGen
  gens : ∀ key value gen, contents st.entries key = some (value, gen) → 0 < gen ∧ gen < st.nextGen

/-- No transaction is open. -/
structure Resting (st : AttrStore) : Prop extends Ordered st where
  closed : ∀ k, (st.txns k).inUse = false

structure Later (st st' : AttrStore) : Prop where
  gen : st.nextGen ≤ st'.nextGen
  keys : ∀ key, contents st'.entries key = contents st.entries key ∨ contents st'.entries key = none ∨
    ∃ value gen, contents st'.entries key = some (value, gen) ∧ st.nextGen ≤ gen

namespace Later

variable {st st' st'' : AttrStore}

theorem of_eq (entries : st'.entries = st.entries) (gen : st'.nextGen = st.nextGen) : Later st st' :=
  ⟨gen.ge, fun _ => .inl (by rw [entries])⟩

theorem trans (first : Later st st') (second : Later st' st'') : Later st st'' where
  gen := first.gen.trans second.gen
  keys key := by
    rcases second.keys key with same | gone | ⟨value, gen, found, drawn⟩
    · rw [same]
      exact first.keys key
    · exact .inr (.inl gone)
    · exact .inr (.inr ⟨value, gen, found, first.gen.trans drawn⟩)

end Later

theorem drawnGens_bounds {gen writes} (unwrapped : gen + writes.length < 2 ^ 64) :
    gen ≤ writes.foldl (fun gen w => w.genAfter gen) gen ∧
      ∀ drawn ∈ drawnGens gen writes, gen ≤ drawn ∧ drawn < writes.foldl (fun gen w => w.genAfter gen) gen := by
  induction writes generalizing gen with
  | nil => simp [drawnGens]
  | cons w rest ih =>
    rw [length_cons] at unwrapped
    rw [foldl_cons, drawnGens, AttrWrite.genAfter]
    cases w.isDelete with
    | true => exact ih (by omega)
    | false =>
      rw [if_neg Bool.false_ne_true, if_neg Bool.false_ne_true, Nat.mod_eq_of_lt (by omega)]
      obtain ⟨grows, bounds⟩ := ih (show gen + 1 + rest.length < 2 ^ 64 by omega)
      refine ⟨by omega, ?_⟩
      intro drawn member
      rcases mem_cons.mp member with rfl | member
      · omega
      · have := bounds drawn member
        omega

def play (t : AttrTxn) (ops : List Op) : AttrTxn := ops.foldl (fun t op => t.after 0 op) t

def answers (values : Bytes → Option Bytes) (t : AttrTxn) : List Op → List Reply
  | [] => []
  | op :: rest => t.answer (values op.key) op :: answers values (t.after 0 op) rest

/-- The records of a transaction against fixed values: all replies but the reborn ones are those of a
replay on the values. -/
def Faithful (values : Bytes → Option Bytes) (t : AttrTxn) : List Record → Prop
  | [] => True
  | r :: rest => (r.reply = t.answer (values r.op.key) r.op ↔ r.reborn = false) ∧ Faithful values (t.after 0 r.op) rest

variable {t : AttrTxn} {records : List Record} {st st' st₀ : AttrStore} {k : Fin attrTxnMax}

theorem Faithful.replies {values : Bytes → Option Bytes} (faithful : Faithful values t records) :
    answers values t (records.map Record.op) = records.map Record.reply ↔ ∀ r ∈ records, r.reborn = false := by
  induction records generalizing t with
  | nil => simp [answers]
  | cons r rest ih =>
    rw [map_cons, map_cons, answers, List.cons.injEq, forall_mem_cons, ih faithful.2, eq_comm, faithful.1]

theorem Faithful.concat {values : Bytes → Option Bytes} {r} (faithful : Faithful values t records)
    (last : r.reply = (play t (records.map Record.op)).answer (values r.op.key) r.op ↔ r.reborn = false) :
    Faithful values t (records ++ [r]) := by
  induction records generalizing t with
  | nil => exact ⟨last, trivial⟩
  | cons r' rest ih => exact ⟨faithful.1, ih faithful.2 last⟩

structure Solo (st : AttrStore) (k : Fin attrTxnMax) (txnId : Nat) : Prop where
  inUse : (st.txns k).inUse = true
  named : (st.txns k).txnId = txnId
  others : ∀ k', k' ≠ k → (st.txns k').inUse = false
  valid : st.unchanged (st.txns k) = true
  bounded : ∀ w ∈ (st.txns k).writeSet, w.Bounded

theorem unchanged_iff : st.unchanged t = true ↔ ∀ r ∈ t.readSet, genOf st.entries r.key = r.gen := by
  simp [unchanged]

namespace Solo

variable {st : AttrStore} {k : Fin attrTxnMax} {txnId : Nat}

theorem findTxn (solo : Solo st k txnId) : st.findTxn txnId = some k := by
  have distinct : IdsDistinct st := by
    intro i j hi hj _
    by_contra differ
    rcases eq_or_ne i k with rfl | other
    · exact absurd hj (by simp [solo.others j (Ne.symm differ)])
    · exact absurd hi (by simp [solo.others i other])
  rw [← solo.named]
  exact findTxn_eq distinct solo.inUse

theorem after (solo : Solo st k txnId) (op : Op) (short : op.key.length < attrMaxKeyLen) :
    Solo (st.setTxn k ((st.txns k).after (genOf st.entries op.key) op)) k txnId := by
  have touches := (st.txns k).after_touches (genOf st.entries op.key) op
  constructor
  · simp only [setTxn, update_self, touches.inUse, solo.inUse]
  · simp only [setTxn, update_self, touches.txnId, solo.named]
  · intro k' other
    simp only [setTxn, update_of_ne other, solo.others k' other]
  · have valid := unchanged_iff.mp solo.valid
    simp only [setTxn, update_self, unchanged_iff]
    rcases touches.readSet with same | ⟨-, grown⟩
    · rw [same]
      exact valid
    · rw [grown, copyString_of_lt short, forall_mem_append, forall_mem_singleton]
      exact ⟨valid, rfl⟩
  · simp only [setTxn, update_self]
    exact (st.txns k).after_bounded _ op solo.bounded

theorem performAll (solo : Solo st k txnId) {t} (alike : Alike (st.txns k) t) {ops}
    (short : ∀ op ∈ ops, op.key.length < attrMaxKeyLen) : (performAll st txnId ops).2 = answers (valueOf st.entries) t ops ∧
      (performAll st txnId ops).1.entries = st.entries ∧ (performAll st txnId ops).1.nextGen = st.nextGen ∧
      Solo (performAll st txnId ops).1 k txnId ∧ Alike ((performAll st txnId ops).1.txns k) (play t ops) := by
  induction ops generalizing st t with
  | nil => exact ⟨rfl, rfl, rfl, solo, alike⟩
  | cons op rest ih =>
    rw [forall_mem_cons] at short
    have next : Alike ((st.setTxn k ((st.txns k).after (genOf st.entries op.key) op)).txns k) (t.after 0 op) := by
      simpa only [setTxn, update_self] using alike.after (genOf st.entries op.key) 0 op
    obtain ⟨replies, entries, gen, kept, replayed⟩ := ih (solo.after op short.1) next short.2
    rw [Attr.performAll, perform_open solo.findTxn, answers, alike.answer]
    exact ⟨congrArg _ replies, entries, gen, kept, replayed⟩

end Solo

theorem overlay_values {map map' : Bytes → Option (Bytes × Nat)} (gen gen' : Nat) (writes : List AttrWrite)
    (same : ∀ key, (map key).map Prod.fst = (map' key).map Prod.fst) (key : Bytes) :
    (overlay map gen writes key).map Prod.fst = (overlay map' gen' writes key).map Prod.fst := by
  induction writes generalizing map map' gen gen' with
  | nil => exact same key
  | cons w rest ih =>
    refine ih _ _ fun key => ?_
    rw [AttrWrite.onMap, AttrWrite.onMap]
    by_cases here : key = w.key
    · subst here
      rw [update_self, update_self]
      cases w.isDelete <;> rfl
    · rw [update_of_ne here, update_of_ne here]
      exact same key

theorem keySet_of_values {entries entries'} (same : valueOf entries = valueOf entries') :
    keySet entries = keySet entries' := by
  ext key
  rw [← valueOf_isSome, ← valueOf_isSome, same]

structure Commits (st st' : AttrStore) (k : Fin attrTxnMax) : Prop where
  distinct : Distinct st'.entries
  contents : contents st'.entries = overlay (contents st.entries) st.nextGen (st.txns k).writeSet
  drawn : ∀ key, OldOrDrawn (drawnGens st.nextGen (st.txns k).writeSet) (AttrStore.contents st.entries key)
    (AttrStore.contents st'.entries key)
  txns : st'.txns = (st.clearTxn k).txns
  nextGen : st'.nextGen = (st.txns k).writeSet.foldl (fun gen w => w.genAfter gen) st.nextGen

theorem txnCommit_room {txnId} (found : st.findTxn txnId = some k) (valid : st.unchanged (st.txns k) = true)
    (distinct : Distinct st.entries) (bounded : ∀ w ∈ (st.txns k).writeSet, w.Bounded)
    (room : AllRoom (keySet st.entries) (st.txns k).writeSet) :
    (st.txnCommit txnId).2 = true ∧ Commits st (st.txnCommit txnId).1 k := by
  rcases st.txnCommit_cases txnId with ⟨missing, -⟩ | ⟨k', found', ⟨conflict, -⟩ | ⟨-, result⟩⟩
  · rw [found] at missing
    cases missing
  · rw [found] at found'
    cases found'
    rw [valid] at conflict
    cases conflict
  · rw [found] at found'
    cases found'
    obtain ⟨ok, applied, drawn⟩ := applyWrites_room st.nextGen distinct bounded room
    rw [result]
    exact ⟨ok, applyWrites_distinct distinct bounded, applied, applyWrites_contents distinct bounded, rfl, drawn⟩

theorem alone_spec {ops} (closed : ∀ k, (st.txns k).inUse = false) (distinct : Distinct st.entries)
    (short : ∀ op ∈ ops, op.key.length < attrMaxKeyLen) (room : AllRoom (keySet st.entries) (play {} ops).writeSet) :
    (alone st ops).2 = (answers (valueOf st.entries) {} ops, true) ∧
      (∀ k, ((alone st ops).1.txns k).inUse = false) ∧ Distinct (alone st ops).1.entries ∧
      contents (alone st ops).1.entries = overlay (contents st.entries) st.nextGen (play {} ops).writeSet := by
  rcases txnBegin_cases st none with ⟨full, -⟩ | ⟨k, -, begun⟩
  · exact absurd (full ⟨0, by decide⟩) (by simp [closed])
  · have solo : Solo (st.txnBegin none).1 k st.nextTxnId := by
      rw [begun]
      constructor
      · simp [setTxn]
      · simp [setTxn]
      · intro k' other
        simp [setTxn, update_of_ne other, closed]
      · simp [setTxn, unchanged]
      · simp [setTxn]
    have fresh : Alike ((st.txnBegin none).1.txns k) {} := by
      rw [begun]
      constructor <;> simp [setTxn]
    have entries : (st.txnBegin none).1.entries = st.entries := by rw [begun]; rfl
    have nextGen : (st.txnBegin none).1.nextGen = st.nextGen := by rw [begun]; rfl
    obtain ⟨replies, entries', nextGen', solo', replayed⟩ := solo.performAll fresh short
    have run : alone st ops =
        (((performAll (st.txnBegin none).1 st.nextTxnId ops).1.txnCommit st.nextTxnId).1,
          (performAll (st.txnBegin none).1 st.nextTxnId ops).2,
          ((performAll (st.txnBegin none).1 st.nextTxnId ops).1.txnCommit st.nextTxnId).2) := by
      rw [alone, begun]
    rw [entries] at replies entries'
    rw [nextGen] at nextGen'
    generalize performAll (st.txnBegin none).1 st.nextTxnId ops = done at replies entries' nextGen' solo' replayed run
    obtain ⟨ok, commits⟩ := txnCommit_room solo'.findTxn solo'.valid (entries' ▸ distinct) solo'.bounded
      (by rw [entries', replayed.staged]; exact room)
    have written := commits.contents
    rw [entries', nextGen', replayed.staged] at written
    rw [run, ok, replies]
    refine ⟨rfl, fun k' => ?_, commits.distinct, written⟩
    rw [commits.txns, clearTxn, setTxn]
    rcases eq_or_ne k' k with rfl | other
    · simp
    · simp [update_of_ne other, solo'.others k' other]

theorem Ordered.genOf_lt (ordered : Ordered st) (key : Bytes) : genOf st.entries key < st.nextGen := by
  rw [genOf_eq]
  cases found : contents st.entries key with
  | none => exact ordered.started
  | some pair => exact (ordered.gens key pair.1 pair.2 found).2

theorem Ordered.genOf_zero (ordered : Ordered st) {key} (zero : genOf st.entries key = 0) :
    contents st.entries key = none := by
  rw [genOf_eq] at zero
  cases found : contents st.entries key with
  | none => rfl
  | some pair =>
    rw [found] at zero
    exact absurd zero (Nat.ne_of_gt (ordered.gens key pair.1 pair.2 found).1)

theorem Later.returning (later : Later st st') {key} (old : genOf st'.entries key < st.nextGen) :
    contents st'.entries key = contents st.entries key ∨
      (genOf st'.entries key = 0 ∧ contents st'.entries key = none) := by
  rw [genOf_eq] at old ⊢
  rcases later.keys key with same | gone | ⟨value, gen, found, drawn⟩
  · exact .inl same
  · rw [gone]
    exact .inr ⟨rfl, rfl⟩
  · rw [found] at old
    exact absurd drawn (Nat.not_le_of_lt old)

structure Tracked (st : AttrStore) (t : AttrTxn) (records : List Record) : Prop where
  alike : Alike t (play {} (records.map Record.op))
  faithful : ∀ st', Later st st' → st'.unchanged t = true → Faithful (valueOf st'.entries) {} records
  touches : ∀ r ∈ t.readSet, r.gen < st.nextGen
  bounded : ∀ w ∈ t.writeSet, w.Bounded
  short : ∀ r ∈ records, r.op.key.length < attrMaxKeyLen

theorem Tracked.later (tracked : Tracked st t records) (later : Later st st') : Tracked st' t records where
  alike := tracked.alike
  faithful st'' further := tracked.faithful st'' (later.trans further)
  touches r member := (tracked.touches r member).trans_le later.gen
  bounded := tracked.bounded
  short := tracked.short

theorem Tracked.fresh (st : AttrStore) (clientFd : Option Nat) (txnId : Nat) :
    Tracked st { inUse := true, clientFd := clientFd, txnId := txnId } [] where
  alike := ⟨rfl, rfl⟩
  faithful _ _ _ := trivial
  touches := by simp
  bounded := by simp
  short := by simp

section Read

variable {st st' : AttrStore} {txnId : Nat} {k : Fin attrTxnMax} {key : Bytes}

theorem reborn_get (found : st.findTxn txnId = some k) (valueMax : Nat) : st.reborn txnId (.get key valueMax) = true ↔
      (∃ r ∈ (st.txns k).readSet, r.key = key ∧ r.gen = 0) ∧ (∀ w ∈ (st.txns k).writeSet, w.key ≠ key) ∧
        contents st.entries key ≠ none := by
  simp [AttrStore.reborn, found, valueOf, Option.isSome_iff_ne_none]

theorem touchRead_records {t u : AttrTxn} {gen : Nat} (touched : t.touchRead key gen = some u)
    (short : key.length < attrMaxKeyLen) :
    t.readSet ⊆ u.readSet ∧ ∃ r ∈ u.readSet, r.key = key ∧ (r ∈ t.readSet ∨ r.gen = gen) := by
  rcases t.touchRead_cases key gen with ⟨⟨r, member, same⟩, h⟩ | ⟨-, -, h⟩ | ⟨-, -, h⟩ <;> rw [touched] at h <;> cases h
  · exact ⟨List.Subset.refl _, r, member, same, .inl member⟩
  · refine ⟨subset_append_left _ _, _, mem_append_right _ mem_cons_self, copyString_of_lt short, .inr rfl⟩

theorem get_answer (ordered : Ordered st) (later : Later st st') (found : st.findTxn txnId = some k)
    (touches : ∀ r ∈ (st.txns k).readSet, r.gen < st.nextGen) (short : key.length < attrMaxKeyLen) (valueMax : Nat)
    (valid : st'.unchanged ((st.txns k).after (genOf st.entries key) (.get key valueMax)) = true) :
    (st.txns k).answer (valueOf st.entries key) (.get key valueMax) =
        (st.txns k).answer (valueOf st'.entries key) (.get key valueMax) ↔
      st.reborn txnId (.get key valueMax) = false := by
  rw [← Bool.not_eq_true, reborn_get found]
  rw [unchanged_iff] at valid
  simp only [AttrTxn.after] at valid
  rcases (Alike.refl (st.txns k)).touchRead key (genOf st.entries key) 0 with ⟨refused, refused'⟩ | ⟨u, u', touched, touched', -⟩
  · have unknown : ∀ r ∈ (st.txns k).readSet, r.key ≠ key := by
      rcases (st.txns k).touchRead_cases key 0 with ⟨-, h⟩ | ⟨unknown, -⟩ | ⟨-, -, h⟩
      · cases refused'.symm.trans h
      · exact unknown
      · cases refused'.symm.trans h
    simp only [AttrTxn.answer, refused', true_iff]
    rintro ⟨⟨r, member, same, -⟩, -⟩
    exact unknown r member same
  · obtain ⟨kept, r, member, same, recorded⟩ := touchRead_records touched short
    rw [touched, Option.getD_some] at valid
    have current : genOf st'.entries key = r.gen := same ▸ valid r member
    have old : genOf st'.entries key < st.nextGen := by
      rw [current]
      rcases recorded with before | now
      · exact touches r before
      · exact now ▸ ordered.genOf_lt key
    simp only [AttrTxn.answer, touched']
    cases own : (st.txns k).writeSet.find? (·.key == key) with
    | some w =>
      have staged : w.key = key := by simpa using find?_some own
      simp only [true_iff]
      rintro ⟨-, unstaged, -⟩
      exact unstaged w (mem_of_find?_eq_some own) staged
    | none =>
      have unstaged : ∀ w ∈ (st.txns k).writeSet, w.key ≠ key := by simpa using List.find?_eq_none.mp own
      rcases later.returning old with unmoved | ⟨zero, gone⟩
      · simp only [valueOf, unmoved, true_iff]
        rintro ⟨⟨r', member', same', absent⟩, -, present⟩
        have zero : genOf st'.entries key = 0 := by rw [← absent, ← valid r' (kept member'), same']
        rw [genOf_eq, unmoved, ← genOf_eq] at zero
        exact present (ordered.genOf_zero zero)
      · cases here : contents st.entries key with
        | none => simp [valueOf, gone, here]
        | some pair =>
          refine iff_of_false (by simp [valueOf, gone, here]) (not_not_intro ⟨⟨r, ?_, same, ?_⟩, unstaged, by simp⟩)
          · refine recorded.resolve_right fun now => ?_
            have := ordered.genOf_zero (now.symm.trans (current.symm.trans zero))
            rw [here] at this
            cases this
          · rw [← current, zero]

end Read

theorem Tracked.perform {txnId} (tracked : Tracked st (st.txns k) records) (ordered : Ordered st)
    (found : st.findTxn txnId = some k) (op : Op) (short : op.key.length < attrMaxKeyLen) :
    Tracked st ((st.txns k).after (genOf st.entries op.key) op)
      (records ++ [⟨op, (st.txns k).answer (valueOf st.entries op.key) op, st.reborn txnId op⟩]) := by
  have touches := (st.txns k).after_touches (genOf st.entries op.key) op
  constructor
  · simp only [play, map_append, map_cons, map_nil, foldl_append, foldl_cons, foldl_nil]
    exact tracked.alike.after _ _ op
  · intro st' later valid
    have still : st'.unchanged (st.txns k) = true := by
      rw [unchanged_iff] at valid ⊢
      rcases touches.readSet with same | ⟨-, grown⟩
      · rwa [same] at valid
      · rw [grown] at valid
        exact fun r member => valid r (mem_append_left _ member)
    refine (tracked.faithful st' later still).concat ?_
    simp only [← tracked.alike.answer]
    cases op with
    | get key valueMax => exact get_answer ordered later found tracked.touches short valueMax valid
    | set | delete => simp [AttrTxn.answer, AttrStore.reborn]
  · rcases touches.readSet with same | ⟨-, grown⟩
    · rw [same]
      exact tracked.touches
    · rw [grown, forall_mem_append, forall_mem_singleton]
      exact ⟨tracked.touches, ordered.genOf_lt _⟩
  · exact (st.txns k).after_bounded _ op tracked.bounded
  · rw [forall_mem_append, forall_mem_singleton]
    exact ⟨tracked.short, short⟩

def Journal.programs (j : Journal) : List (List Op) := j.committed.map (·.map Record.op)

def Journal.results (j : Journal) : List (List Reply × Bool) :=
  j.committed.map fun records => (records.map Record.reply, true)

/-- No committed transaction has read a reborn key. -/
def Journal.NoneReborn (j : Journal) : Prop := ∀ records ∈ j.committed, ∀ r ∈ records, r.reborn = false
  deriving Decidable

structure InOrder (st₀ : AttrStore) (j : Journal) : Prop where
  closed : ∀ k, ((serially st₀ j.programs).1.txns k).inUse = false
  distinct : Distinct (serially st₀ j.programs).1.entries
  values : valueOf j.store.entries = valueOf (serially st₀ j.programs).1.entries
  replies : (serially st₀ j.programs).2 = j.results ↔ j.NoneReborn
  count : (serially st₀ j.programs).2.length = j.committed.length

theorem serially_concat (st : AttrStore) (programs : List (List Op)) (ops : List Op) : serially st (programs ++ [ops]) =
      ((alone (serially st programs).1 ops).1, (serially st programs).2 ++ [(alone (serially st programs).1 ops).2]) := by
  rw [serially, foldl_append]
  rfl

theorem InOrder.commit {j} (inOrder : InOrder st₀ j) (tracked : Tracked j.store (j.store.txns k) records)
    (valid : j.store.unchanged (j.store.txns k) = true) (room : AllRoom (keySet j.store.entries) (j.store.txns k).writeSet)
    (commits : Commits j.store st' k) :
    InOrder st₀ { j with store := st', committed := j.committed ++ [records] } := by
  have staged := tracked.alike.staged
  have short : ∀ op ∈ records.map Record.op, op.key.length < attrMaxKeyLen := by simpa using tracked.short
  obtain ⟨replies, closed, distinct, written⟩ := alone_spec inOrder.closed inOrder.distinct short
    (by rw [← keySet_of_values inOrder.values, ← staged]; exact room)
  have programs : Journal.programs { j with store := st', committed := j.committed ++ [records] } =
      j.programs ++ [records.map Record.op] := by simp [Journal.programs]
  have faithful := (tracked.faithful j.store (.of_eq rfl rfl) valid).replies
  rw [inOrder.values] at faithful
  constructor
  · rw [programs, serially_concat]
    exact closed
  · rw [programs, serially_concat]
    exact distinct
  · rw [programs, serially_concat]
    funext key
    rw [valueOf, valueOf, commits.contents, written, staged]
    exact overlay_values _ _ _ (fun key => congrFun inOrder.values key) key
  · rw [programs, serially_concat, replies]
    have lengths : (serially st₀ j.programs).2.length = j.results.length := by simp [inOrder.count, Journal.results]
    have results : Journal.results { j with store := st', committed := j.committed ++ [records] } =
        j.results ++ [(records.map Record.reply, true)] := by simp [Journal.results]
    have reborn : Journal.NoneReborn { j with store := st', committed := j.committed ++ [records] } ↔
        j.NoneReborn ∧ ∀ r ∈ records, r.reborn = false := by
      simp only [Journal.NoneReborn, forall_mem_append, forall_mem_singleton]
    rw [results, reborn, ← inOrder.replies, ← faithful]
    constructor
    · intro same
      obtain ⟨before, last⟩ := append_inj same lengths
      exact ⟨before, congrArg Prod.fst (head_eq_of_cons_eq last)⟩
    · rintro ⟨before, last⟩
      rw [before, last]
  · rw [programs, serially_concat]
    simp [inOrder.count]

structure Tracks (st₀ : AttrStore) (j : Journal) : Prop where
  ordered : Ordered j.store
  ids : IdsDistinct j.store
  opened : ∀ k, (j.store.txns k).inUse = true →
    Tracked j.store (j.store.txns k) (j.performed (j.store.txns k).txnId)
  inOrder : InOrder st₀ j

theorem tracks_init (resting : Resting st₀) : Tracks st₀ { store := st₀ } where
  ordered := resting.toOrdered
  ids k _ inUse := by simp [resting.closed k] at inUse
  opened k inUse := by simp [resting.closed k] at inUse
  inOrder :=
    { closed := resting.closed
      distinct := resting.distinct
      values := rfl
      replies := by simp [serially, Journal.programs, Journal.results, Journal.NoneReborn]
      count := rfl }

theorem InOrder.congr {j j'} (inOrder : InOrder st₀ j) (entries : j'.store.entries = j.store.entries)
    (committed : j'.committed = j.committed) : InOrder st₀ j' := by
  obtain ⟨store, performed, log⟩ := j
  obtain ⟨store', performed', log'⟩ := j'
  subst committed
  exact { inOrder with values := entries ▸ inOrder.values }

section Steps

variable {st₀ : AttrStore} {j : Journal}

theorem Ordered.congr {st} {txns : Fin attrTxnMax → AttrTxn} {nextTxnId} (ordered : Ordered st) :
    Ordered { st with txns := txns, nextTxnId := nextTxnId } :=
  ⟨ordered.distinct, ordered.started, ordered.gens⟩

section
variable (tracks : Tracks st₀ j)
include tracks

theorem Tracks.seat {j' k t} (txns : j'.store.txns = Function.update j.store.txns k t)
    (later : Later j.store j'.store) (ordered : Ordered j'.store) (inOrder : InOrder st₀ j')
    (own : t.inUse = true → Tracked j'.store t (j'.performed t.txnId))
    (others : ∀ a, a ≠ k → (j.store.txns a).inUse = true →
      (t.inUse = true → (j.store.txns a).txnId ≠ t.txnId) ∧
        j'.performed (j.store.txns a).txnId = j.performed (j.store.txns a).txnId) :
    Tracks st₀ j' := by
  have here : j'.store.txns k = t := by rw [txns, update_self]
  have there : ∀ a, a ≠ k → j'.store.txns a = j.store.txns a := fun a ne => by rw [txns, update_of_ne ne]
  refine ⟨ordered, ?_, ?_, inOrder⟩
  · intro a b ha hb same
    by_cases ak : a = k <;> by_cases bk : b = k
    · exact ak.trans bk.symm
    · rw [ak, here] at ha same
      rw [there b bk] at hb same
      exact absurd same.symm ((others b bk hb).1 ha)
    · rw [there a ak] at ha same
      rw [bk, here] at hb same
      exact absurd same ((others a ak ha).1 hb)
    · rw [there a ak] at ha same
      rw [there b bk] at hb same
      exact tracks.ids a b ha hb same
  · intro a ha
    rcases eq_or_ne a k with rfl | ne
    · rw [here] at ha ⊢
      exact own ha
    · rw [there a ne] at ha ⊢
      rw [(others a ne ha).2]
      exact (tracks.opened a ha).later later

theorem Tracks.clear (k : Fin attrTxnMax) : Tracks st₀ { j with store := j.store.clearTxn k } :=
  tracks.seat (t := {}) rfl (.of_eq rfl rfl) tracks.ordered.congr (tracks.inOrder.congr rfl rfl) (by simp)
    fun _ _ _ => ⟨by simp, rfl⟩

theorem Tracks.begin (clientFd : Option Nat) (unused : j.store.findTxn j.store.nextTxnId = none) :
    Tracks st₀ (j.step (.begin clientFd)) := by
  simp only [Journal.step, call]
  rcases txnBegin_cases j.store clientFd with ⟨-, h⟩ | ⟨k, -, h⟩ <;> rw [h]
  · exact tracks
  · refine tracks.seat (k := k) (t := { inUse := true, clientFd := clientFd, txnId := j.store.nextTxnId }) rfl (.of_eq rfl rfl)
      tracks.ordered.congr (tracks.inOrder.congr rfl rfl) (fun _ => ?_) fun a _ inUse => ?_
    · dsimp only
      rw [update_self]
      exact .fresh _ _ _
    · have other := findTxn_none_spec unused inUse
      exact ⟨fun _ => other, update_of_ne other _ _⟩

theorem Tracks.perform (txnId : Nat) (op : Op) (short : op.key.length < attrMaxKeyLen) :
    Tracks st₀ (j.step (.op txnId op)) := by
  simp only [Journal.step, call]
  cases found : j.store.findTxn txnId with
  | none =>
    rw [perform_closed found]
    refine ⟨tracks.ordered, tracks.ids, fun k inUse => ?_, tracks.inOrder.congr rfl rfl⟩
    dsimp only at inUse ⊢
    rw [update_of_ne (findTxn_none_spec found inUse)]
    exact tracks.opened k inUse
  | some k =>
    obtain ⟨inUse, named⟩ := findTxn_spec found
    have id := ((j.store.txns k).after_touches (genOf j.store.entries op.key) op).txnId.trans named
    have tracked := tracks.opened k inUse
    rw [named] at tracked
    rw [perform_open found]
    refine tracks.seat (k := k) rfl (.of_eq rfl rfl) tracks.ordered.congr (tracks.inOrder.congr rfl rfl) (fun _ => ?_)
      fun a ak ha => ?_
    · rw [id]
      dsimp only
      rw [update_self]
      exact (tracked.perform tracks.ordered found op short).later (.of_eq rfl rfl)
    · have other : (j.store.txns a).txnId ≠ txnId := fun same => ak (tracks.ids a k ha inUse (same.trans named.symm))
      exact ⟨fun _ => id ▸ other, update_of_ne other _ _⟩

end

theorem Commits.later {st st' k} (commits : Commits st st' k)
    (unwrapped : st.nextGen + (st.txns k).writeSet.length < 2 ^ 64) : Later st st' := by
  obtain ⟨grows, bounds⟩ := drawnGens_bounds unwrapped
  rw [← commits.nextGen] at grows
  refine ⟨grows, fun key => ?_⟩
  rcases commits.drawn key with same | gone | ⟨value, gen, member, found⟩
  · exact .inl same
  · exact .inr (.inl gone)
  · exact .inr (.inr ⟨value, gen, found, (bounds gen member).1⟩)

theorem Commits.ordered {st st' k} (commits : Commits st st' k) (ordered : Ordered st)
    (unwrapped : st.nextGen + (st.txns k).writeSet.length < 2 ^ 64) : Ordered st' := by
  obtain ⟨grows, bounds⟩ := drawnGens_bounds unwrapped
  rw [← commits.nextGen] at grows bounds
  refine ⟨commits.distinct, ordered.started.trans_le grows, fun key value gen found => ?_⟩
  rcases commits.drawn key with same | gone | ⟨value', gen', member, found'⟩
  · rw [same] at found
    obtain ⟨positive, below⟩ := ordered.gens key value gen found
    exact ⟨positive, below.trans_le grows⟩
  · rw [gone] at found
    cases found
  · rw [found'] at found
    cases found
    have := bounds gen member
    have := ordered.started
    omega

theorem Tracks.commit (tracks : Tracks st₀ j) (txnId : Nat) (within : Within j.store (.commit txnId)) :
    Tracks st₀ (j.step (.commit txnId)) := by
  rcases j.store.txnCommit_cases txnId with ⟨-, h⟩ | ⟨k, found, ⟨-, h⟩ | ⟨valid, -⟩⟩
  · simp only [Journal.step, call, h]
    exact tracks
  · simp only [Journal.step, call, h]
    exact tracks.clear k
  · obtain ⟨inUse, named⟩ := findTxn_spec found
    obtain ⟨room, unwrapped⟩ := within k found valid
    have tracked := tracks.opened k inUse
    obtain ⟨ok, commits⟩ := txnCommit_room found valid tracks.ordered.distinct tracked.bounded room
    have later := commits.later unwrapped
    simp only [Journal.step, call, ok]
    rw [named] at tracked
    exact tracks.seat commits.txns later (commits.ordered tracks.ordered unwrapped)
      (tracks.inOrder.commit tracked valid room commits) (by simp) fun _ _ _ => ⟨by simp, rfl⟩

theorem Tracks.rollback (tracks : Tracks st₀ j) (txnId : Nat) : Tracks st₀ (j.step (.rollback txnId)) := by
  simp only [Journal.step, call]
  rcases txnRollback_cases j.store txnId with h | ⟨k, -, h⟩ <;> rw [h]
  · exact tracks
  · exact tracks.clear k

end Steps

theorem step_tracks (j : Journal) (c : Call) (tracks : Tracks st₀ j) (within : Within j.store c) : Tracks st₀ (j.step c) := by
  cases c with
  | begin clientFd => exact tracks.begin clientFd within
  | op txnId op => exact tracks.perform txnId op within
  | commit txnId => exact tracks.commit txnId within
  | rollback txnId => exact tracks.rollback txnId

/-- Every call of a run is within the limits. -/
def WithinLimits (st : AttrStore) (calls : List Call) : Prop :=
  Along Journal.step (fun j c => Within j.store c) { store := st } calls

/-- **Serializability of gets and writes**: within the limits a run is the serial run of its committed
transactions exactly when none of them has read a reborn key. -/
theorem run_serializable_iff (st : AttrStore) (calls : List Call) (resting : Resting st)
    (within : WithinLimits st calls) : Serializable st calls ↔ (journal st calls).NoneReborn := by
  have tracks : Tracks st (journal st calls) := within.invariant step_tracks (tracks_init resting)
  exact ⟨fun same => tracks.inOrder.replies.mp same.1, fun none => ⟨tracks.inOrder.replies.mpr none, tracks.inOrder.values⟩⟩

theorem resting_init : Resting {} where
  distinct := by decide
  started := by decide
  gens := by simp [contents, lookup]
  closed _ := rfl

def interleaved : List Call :=
  [.begin none, .begin none, .op 1 (.get (ascii "b") 16), .op 2 (.set (ascii "a") (ascii "1")), .commit 2,
    .op 1 (.get (ascii "a") 16), .op 1 (.set (ascii "b") (ascii "2")), .commit 1]

theorem interleaved_serializable :
    (WithinLimits {} interleaved ∧ (journal {} interleaved).committed.length = 2) ∧ Serializable {} interleaved := by
  have within : WithinLimits {} interleaved := by unfold WithinLimits; decide +kernel
  refine ⟨⟨within, by decide +kernel⟩, ?_⟩
  exact (run_serializable_iff {} interleaved resting_init within).mpr (by decide +kernel)

def readTwice : List Call :=
  [.begin none, .op 1 (.get (ascii "a") 16), .begin none, .op 2 (.set (ascii "a") (ascii "1")), .commit 2,
    .op 1 (.get (ascii "a") 16), .begin none, .op 3 (.delete (ascii "a")), .commit 3, .commit 1]

theorem readTwice_not_serializable : WithinLimits {} readTwice ∧ ¬ Serializable {} readTwice := by
  refine ⟨by unfold WithinLimits; decide +kernel, fun serial => absurd serial.1 ?_⟩
  decide +kernel

end Lumimux.Attr
