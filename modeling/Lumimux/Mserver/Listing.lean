import Lumimux.Attr.Calls
import Lumimux.Mserver.Handlers

/-!
# Attribute listings (`attr_store_list`, and `ATTR_LIST` of `cmd/mserver/mserver.c`)

A transaction sees the committed map under its own sets and deletes.
-/

namespace Lumimux.Attr.AttrStore
open Lib Ipc Mserver Option
open List hiding lookup beq_eq_decide map_map

def staged (st : AttrStore) (k : Fin attrTxnMax) (key : Bytes) : Option Bytes :=
  match lookup AttrWrite.key (st.txns k).writeSet key with
  | some w => if w.isDelete then none else some w.value
  | none => valueOf st.entries key

/-- Entries and staged writes name no key twice. -/
structure Mapped (st : AttrStore) (k : Fin attrTxnMax) : Prop where
  entries : Distinct st.entries
  writes : ((st.txns k).writeSet.map AttrWrite.key).Nodup

/-- The pairs are the map as the transaction sees it, each key once. -/
structure Overlaid (st : AttrStore) (k : Fin attrTxnMax) (pairs : List (Bytes × Bytes)) : Prop where
  once : (pairs.map Prod.fst).Nodup
  mem : ∀ key value, (key, value) ∈ pairs ↔ st.staged k key = some value

def linesText (pairs : List (Bytes × Bytes)) : Bytes :=
  (pairs.map fun p => p.1 ++ ascii "=" ++ p.2 ++ ascii "\n").flatten

variable {st : AttrStore} {k : Fin attrTxnMax} {txnId bufMax : Nat}

theorem Overlaid.length_eq {pairs pairs'} (one : Overlaid st k pairs) (two : Overlaid st k pairs') :
    (linesText pairs).length = (linesText pairs').length := by
  have perm : pairs.Perm pairs' :=
    (perm_ext_iff_of_nodup (one.once.of_map _) (two.once.of_map _)).mpr fun p => (one.mem _ _).trans (two.mem _ _).symm
  exact ((perm.map _).flatten).length_eq

def pairs (st : AttrStore) (k : Fin attrTxnMax) (keys : List Bytes) : List (Bytes × Bytes) :=
  keys.filterMap fun key => (st.staged k key).map (key, ·)

def oldKeys (st : AttrStore) : List Bytes := st.entries.map AttrEntry.key

def newKeys (st : AttrStore) (k : Fin attrTxnMax) : List Bytes :=
  ((st.txns k).writeSet.map AttrWrite.key).filter (· ∉ st.oldKeys)

theorem list_eq (found : st.findTxn txnId = some k) (mapped : Mapped st k) : st.list txnId bufMax =
      some ((({} : Listing).lines bufMax (st.pairs k st.oldKeys)).lines bufMax (st.pairs k (st.newKeys k))).text := by
  have find (key : Bytes) : (st.txns k).writeSet.find? (·.key == key) = lookup AttrWrite.key (st.txns k).writeSet key := by
    simp [lookup, beq_eq_decide]
  rw [list, found, pairs, oldKeys, filterMap_map, pairs, newKeys, List.filter_map, filterMap_map,
    filterMap_filter]
  refine congrArg (fun l : Listing => some l.text) (congrArg₂ (Listing.lines bufMax) (congrArg _ ?_) ?_)
  · refine filterMap_congr fun e member => ?_
    rw [find, Function.comp, staged]
    cases seen : lookup AttrWrite.key (st.txns k).writeSet e.key with
    | some w =>
      rw [← key_of_lookup seen]
      dsimp only
      split <;> rfl
    | none =>
      have here : lookup AttrEntry.key st.entries e.key = some e := (lookup_eq_some_iff mapped.entries).mpr ⟨member, rfl⟩
      simp [valueOf, contents, here]
  · refine filterMap_congr fun w member => ?_
    have here : lookup AttrWrite.key (st.txns k).writeSet w.key = some w :=
      (lookup_eq_some_iff mapped.writes).mpr ⟨member, rfl⟩
    have known : (findEntry st.entries w.key).isSome = true ↔ w.key ∈ st.oldKeys := by
      simp [findEntry_eq, oldKeys]
    by_cases delete : w.isDelete <;> by_cases old : w.key ∈ st.oldKeys <;> simp [staged, here, delete, known, old]

theorem overlaid_pairs (mapped : Mapped st k) : Overlaid st k (st.pairs k st.oldKeys ++ st.pairs k (st.newKeys k)) := by
  rw [pairs, pairs, ← filterMap_append]
  have keys : (st.oldKeys ++ st.newKeys k).Nodup := by
    refine nodup_append'.mpr ⟨mapped.entries, mapped.writes.filter _, fun key old new => ?_⟩
    simpa [old] using mem_filter.mp new
  refine ⟨?_, fun key value => ?_⟩
  · rw [map_filterMap]
    refine keys.filterMap fun key key' b one two => ?_
    simp only [map_map, mem_def, map_eq_some_iff] at one two
    grind
  · have seen : st.staged k key = some value → key ∈ st.oldKeys ++ st.newKeys k := by
      intro value
      simp only [mem_append, newKeys, mem_filter, decide_eq_true_eq]
      by_contra absent
      have unknown : key ∉ st.oldKeys ∧ key ∉ (st.txns k).writeSet.map AttrWrite.key := by tauto
      rw [staged, lookup_eq_none_iff.mpr unknown.2] at value
      simp [valueOf, contents, lookup_eq_none_iff.mpr unknown.1] at value
    simp only [mem_filterMap, map_eq_some_iff, Prod.mk.injEq]
    grind

theorem Listing.lines_whole {l : Listing} {rest : List (Bytes × Bytes)} (same : l.text = l.done)
    (fits : l.done.length + (linesText rest).length < bufMax) :
    l.lines bufMax rest = ⟨l.done ++ linesText rest, l.done ++ linesText rest⟩ := by
  induction rest generalizing l with
  | nil =>
    obtain ⟨done, text⟩ := l
    simp_all [Listing.lines, linesText]
  | cons p rest ih =>
    rw [linesText, map_cons, flatten_cons, ← linesText] at fits ⊢
    rw [length_append] at fits
    rw [Listing.lines, Listing.line, if_neg (by omega)]
    dsimp only
    rw [ih rfl (by rw [length_append]; omega), append_assoc]

theorem Listing.lines_short {l : Listing} (rest : List (Bytes × Bytes))
    (short : l.done.length < bufMax ∧ l.text.length < bufMax) :
    (l.lines bufMax rest).done.length < bufMax ∧ (l.lines bufMax rest).text.length < bufMax := by
  induction rest generalizing l with
  | nil => exact short
  | cons p rest ih =>
    rw [Listing.lines, Listing.line]
    split_ifs with long
    · refine ⟨short.1, ?_⟩
      simp only [length_append, length_take]
      omega
    · exact ih ⟨by simp only [length_append] at long ⊢; omega, by simp only [length_append] at long ⊢; omega⟩

def listingLength (st : AttrStore) (k : Fin attrTxnMax) : Nat :=
  ((st.pairs k (st.oldKeys ++ st.newKeys k)).map fun p => p.1.length + p.2.length + 2).sum

theorem length_linesText (listed : List (Bytes × Bytes)) :
    (linesText listed).length = (listed.map fun p => p.1.length + p.2.length + 2).sum := by
  rw [linesText, length_flatten, List.map_map]
  refine congrArg List.sum (map_congr_left fun p _ => ?_)
  simp [ascii]
  omega

theorem Overlaid.length_text {listed} (overlaid : Overlaid st k listed) (mapped : Mapped st k) :
    (linesText listed).length = st.listingLength k := by
  rw [overlaid.length_eq (overlaid_pairs mapped), length_linesText, listingLength, pairs, pairs, pairs, filterMap_append]

theorem list_short (positive : 0 < bufMax) (found : st.findTxn txnId = some k) (mapped : Mapped st k) {text : Bytes}
    (listed : st.list txnId bufMax = some text) : text.length < bufMax := by
  rw [list_eq found mapped] at listed
  rw [← Option.some.inj listed]
  exact (Listing.lines_short _ (Listing.lines_short _ ⟨positive, positive⟩)).2

theorem list_whole (found : st.findTxn txnId = some k) (mapped : Mapped st k) (fits : st.listingLength k < bufMax) :
    st.list txnId bufMax = some (linesText (st.pairs k st.oldKeys ++ st.pairs k (st.newKeys k))) := by
  rw [← (overlaid_pairs mapped).length_text mapped] at fits
  rw [list_eq found mapped]
  simp only [linesText, map_append, flatten_append, length_append] at fits ⊢
  rw [Listing.lines_whole (l := {}) rfl (by simp only [linesText, length_nil]; omega),
    Listing.lines_whole rfl (by simp only [linesText, nil_append]; omega)]
  simp only [linesText, nil_append]

/-- **An `ATTR_LIST` of an open transaction** is answered with a text, which is complete exactly if it fits. -/
theorem list_complete_iff (env : Env) (s : Server) (i : Slot) {buf : Bytes} {ak : IpcAttrKv}
    (decoded : ipcAttrKeyDecode buf = some ak) (found : s.attrs.findTxn ak.txnId = some k) (mapped : Mapped s.attrs k) :
    ∃ text payload, ipcAttrEntriesEncode ipcMaxPayload text = some payload ∧
      s.handleAttrMsg env i .attrList buf = s.reply env i .attrEntries payload ∧
      ((∃ listed, Overlaid s.attrs k listed ∧ text = linesText listed) ↔ s.attrs.listingLength k < ipcMaxPayload - 64) := by
  obtain ⟨text, listed⟩ : ∃ text, s.attrs.list ak.txnId (ipcMaxPayload - 64) = some text := ⟨_, list_eq found mapped⟩
  have short := list_short (by decide) found mapped listed
  have room : ipcMaxPayload = 65536 := rfl
  obtain ⟨payload, encoded⟩ : ∃ payload, ipcAttrEntriesEncode ipcMaxPayload text = some payload := by
    refine ⟨_, if_pos ?_⟩
    simp only [flatten_cons, flatten_nil, append_nil, msWriteBytes, length_cons, length_append, le16,
      length_nil]
    omega
  refine ⟨text, payload, encoded, ?_, ?_, fun fits => ?_⟩
  · simp only [Server.handleAttrMsg, decoded, listed, encoded, Server.replyEncoded]
  · rintro ⟨pairs, overlaid, same⟩
    rw [← overlaid.length_text mapped, ← same]
    exact short
  · rw [list_whole found mapped fits] at listed
    exact ⟨_, overlaid_pairs mapped, (Option.some.inj listed).symm⟩

theorem attrTxnMax_pos : 0 < attrTxnMax := by decide

def heavy (n : Nat) : AttrStore where
  entries := (range n).map fun j => ⟨[UInt8.ofNat (j + 33)], replicate 1023 120, j + 1⟩
  txns := fun k => if k.val = 0 then { inUse := true, txnId := 1 } else {}

theorem two_listed : ∃ text payload, ipcAttrEntriesEncode ipcMaxPayload text = some payload ∧
      Server.handleAttrMsg .willing ⟨fun _ => {}, Vt.Emu.new 1 1 0, heavy 2, [], [], true, 0, none, false, 0⟩
          ⟨0, mclientMax_pos⟩ .attrList [5, 0, 10, 1, 0, 0, 0] =
        Server.reply .willing ⟨fun _ => {}, Vt.Emu.new 1 1 0, heavy 2, [], [], true, 0, none, false, 0⟩
          ⟨0, mclientMax_pos⟩ .attrEntries payload ∧
      ((∃ listed, Overlaid (heavy 2) ⟨0, attrTxnMax_pos⟩ listed ∧ text = linesText listed) ↔
        (heavy 2).listingLength ⟨0, attrTxnMax_pos⟩ < ipcMaxPayload - 64) :=
  @list_complete_iff ⟨0, attrTxnMax_pos⟩ .willing _ _ _ ⟨1, [], []⟩ (by decide +kernel) (by decide +kernel)
    ⟨by decide +kernel, by decide +kernel⟩

theorem full_listing_cut : ∃ text, (heavy 64).list 1 (ipcMaxPayload - 64) = some text ∧
    ¬ ∃ listed, Overlaid (heavy 64) ⟨0, attrTxnMax_pos⟩ listed ∧ text = linesText listed := by
  have found : (heavy 64).findTxn 1 = some ⟨0, attrTxnMax_pos⟩ := by decide +kernel
  have mapped : Mapped (heavy 64) ⟨0, attrTxnMax_pos⟩ := ⟨by decide +kernel, by decide +kernel⟩
  have listed := @list_eq _ _ _ (ipcMaxPayload - 64) found mapped
  refine ⟨_, listed, ?_⟩
  rintro ⟨pairs, overlaid, same⟩
  have short := list_short (by decide) found mapped listed
  rw [same, overlaid.length_text mapped] at short
  exact absurd short (by decide +kernel)

end Lumimux.Attr.AttrStore
