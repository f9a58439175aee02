import Lumimux.Sessdir.Generations
import Lumimux.Sessdir.State

/-!
# A written state is read back

A list of windows is parsed back (`parsePidList_format`), a line is one entry (`dotenvLoop_entry`), and so the next call
reads the state (`stateParse_stateText`).
-/

namespace Lumimux.Sessdir
open Lib List

def SlotValue (n : Int) : Prop := 0 ≤ n ∧ n < 2147483648

variable {n : Int} {l : List Int} {val key : Bytes}

theorem printInt_of_slotValue (slot : SlotValue n) : printInt n = decimal n.toNat := by
  obtain ⟨low, -⟩ := slot
  rw [printInt, if_neg (by omega), show n.natAbs = n.toNat by omega]

theorem toPid_of_slotValue (slot : SlotValue n) : toPid n = n := by
  obtain ⟨low, high⟩ := slot
  rw [toPid, Int.bmod_eq_of_le (by omega) (by omega)]

theorem formatPidList_nil : formatPidList [] = [] := rfl

theorem formatPidList_cons (n : Int) (rest : List Int) :
    ∃ lead : Bytes, formatPidList (n :: rest) = printInt n ++ (lead ++ formatPidList rest) ∧
      (lead = [] ∨ lead = [32]) ∧ EndsAt isDigit (lead ++ formatPidList rest) := by
  cases rest with
  | nil => exact ⟨[], by simp [formatPidList], .inl rfl, nofun⟩
  | cons m rest => exact ⟨[32], by simp [formatPidList], .inr rfl, endsAt_blank _⟩

theorem dropWhile_blank_decimal {lead} (blank : lead = [] ∨ lead = [32]) (n : Nat) (tail : Bytes) :
    (lead ++ (decimal n ++ tail)).dropWhile (· = 32) = decimal n ++ tail := by
  have stays : (decimal n ++ tail).dropWhile (· = 32) = decimal n ++ tail := by
    obtain ⟨b, rest, text⟩ := exists_cons_of_ne_nil (decimal_ne_nil n)
    obtain ⟨d, small, digit⟩ := decimal_digits n b (by simp [text])
    have visible := (digit_byte small).2.1
    have notBlank : b ≠ 32 := by
      rintro rfl
      rw [← digit] at visible
      exact absurd visible (by decide)
    rw [text, cons_append, dropWhile_cons_of_neg (by simpa using notBlank)]
  rcases blank with rfl | rfl
  · exact stays
  · rw [singleton_append, dropWhile_cons_of_pos (by simp), stays]

theorem pidListLoop_format (max : Nat) (keepZero : Bool) (l : List Int) (slots : ∀ n ∈ l, SlotValue n)
    (kept : ∀ n ∈ l, n > 0 ∨ keepZero = true) {lead} (blank : lead = [] ∨ lead = [32]) {dst}
    (room : dst.length + l.length ≤ max) {fuel} (enough : l.length < fuel) :
    pidListLoop max keepZero fuel dst (lead ++ formatPidList l) = dst ++ l := by
  induction l generalizing lead dst fuel with
  | nil =>
    obtain ⟨fuel, rfl⟩ : ∃ k, fuel = k + 1 := ⟨fuel - 1, by simp at enough; omega⟩
    rw [formatPidList_nil, append_nil, append_nil, pidListLoop]
    rcases blank with rfl | rfl
    · simp
    · simp
  | cons n rest ih =>
    obtain ⟨fuel, rfl⟩ : ∃ k, fuel = k + 1 := ⟨fuel - 1, by simp at enough; omega⟩
    rw [length_cons] at room enough
    obtain ⟨lead', text, blank', ends⟩ := formatPidList_cons n rest
    have slot := slots n mem_cons_self
    have dropped := dropWhile_blank_decimal blank n.toNat (lead' ++ formatPidList rest)
    have nonempty : decimal n.toNat ++ (lead' ++ formatPidList rest) ≠ [] := by simp [decimal_ne_nil]
    have scanned : scanSigned (decimal n.toNat ++ (lead' ++ formatPidList rest)) =
        some (n, lead' ++ formatPidList rest) := by
      obtain ⟨low, high⟩ := slot
      rw [scanSigned_decimal (by omega) ends, Int.toNat_of_nonneg low]
    rw [text, printInt_of_slotValue slot, pidListLoop]
    simp only [dropped, scanned]
    rw [if_neg (by simp [decimal_ne_nil]; omega), if_neg nonempty, if_pos (kept n mem_cons_self),
      toPid_of_slotValue slot,
      ih (fun m member => slots m (mem_cons_of_mem _ member)) (fun m member => kept m (mem_cons_of_mem _ member))
        blank' (by simp; omega) (by omega)]
    simp

theorem length_le_formatPidList (l : List Int) : l.length ≤ (formatPidList l).length := by
  induction l with
  | nil => exact Nat.le_refl 0
  | cons n rest ih =>
    obtain ⟨lead, text, -, -⟩ := formatPidList_cons n rest
    have one : 1 ≤ (printInt n).length := by
      unfold printInt
      have := length_pos_iff.mpr (decimal_ne_nil n.natAbs)
      split
      · simp
      · omega
    rw [text]
    simp only [length_append, length_cons]
    omega

theorem parsePidList_format {keepZero} (slots : ∀ n ∈ l, SlotValue n) (kept : ∀ n ∈ l, n > 0 ∨ keepZero = true)
    (few : l.length ≤ maxWindows) :
    parsePidList (formatPidList l) maxWindows keepZero = l := by
  have enough : l.length < (formatPidList l).length + 1 := Nat.lt_succ_of_le (length_le_formatPidList l)
  have parsed := @pidListLoop_format maxWindows keepZero l slots kept [] (.inl rfl) []
    (by simpa using few) _ enough
  simpa [parsePidList] using parsed

def ListText (val : Bytes) : Prop := ∀ b ∈ val, isDigit b = true ∨ b = 32

theorem ListText.append {xs ys} (left : ListText xs) (right : ListText ys) : ListText (xs ++ ys) := by
  intro b member
  rcases mem_append.mp member with inLeft | inRight
  · exact left b inLeft
  · exact right b inRight

theorem listText_printInt (slot : SlotValue n) : ListText (printInt n) := by
  intro b member
  rw [printInt_of_slotValue slot] at member
  exact .inl (decimal_isDigit _ b member)

theorem listText_format (slots : ∀ n ∈ l, SlotValue n) : ListText (formatPidList l) := by
  induction l with
  | nil => nofun
  | cons n rest ih =>
    obtain ⟨lead, text, blank, -⟩ := formatPidList_cons n rest
    have plainLead : ListText lead := by
      rcases blank with rfl | rfl
      · nofun
      · intro b member
        exact .inr (mem_singleton.mp member)
    rw [text]
    exact (listText_printInt (slots n mem_cons_self)).append
      (plainLead.append (ih fun m member => slots m (mem_cons_of_mem _ member)))

theorem ListText.apart (plain : ListText val) : ∀ b ∈ val, b ≠ newline ∧ b ≠ 34 ∧ b ≠ 92 ∧ b ≠ 36 ∧ b ≠ 96 ∧ b ≠ 0 := by
  intro b member
  rcases plain b member with digit | rfl
  · simp only [isDigit, Bool.and_eq_true, decide_eq_true_eq] at digit
    obtain ⟨low, high⟩ := digit
    unfold newline
    grind
  · decide

theorem escapeQuoted_listText (plain : ListText val) : escapeQuoted val = val := by
  have each : ∀ b ∈ val, (if b = 34 ∨ b = 92 ∨ b = 36 ∨ b = 96 then [92, b] else [b]) = [b] := by
    intro b member
    obtain ⟨-, quote, backslash, dollar, backquote, -⟩ := plain.apart b member
    rw [if_neg (by tauto)]
  rw [escapeQuoted, flatMap_congr each]
  simp

theorem unescapeQuoted_of_plain (plain : ∀ b ∈ val, b ≠ 34 ∧ b ≠ 92) : unescapeQuoted val = val := by
  induction val with
  | nil => rfl
  | cons b rest ih =>
    obtain ⟨quote, backslash⟩ := plain b mem_cons_self
    have later := ih fun c member => plain c (mem_cons_of_mem _ member)
    rw [unescapeQuoted]
    · rw [later]
    · exact quote
    · intro c more same
      exact absurd same backslash

theorem kvValue_quoted (plain : ∀ b ∈ val, b ≠ 34 ∧ b ≠ 92) (short : val.length ≤ 4095)
    (rest : Bytes) : kvValue (34 :: (val ++ 34 :: rest)) = val := by
  have taken : (val ++ 34 :: rest).takeWhile (· ≠ 34) = val := takeWhile_before (fun member => (plain _ member).1 rfl) rest
  simp only [kvValue]
  rw [if_pos (by simp), taken, take_of_length_le short, unescapeQuoted_of_plain plain]

theorem dotenvLoop_line (named : PlainKey key) (line : newline ∉ val) (n : Nat) (rest : Bytes) :
    dotenvLoop (n + 1) (kvText key val ++ rest) =
      (key, kvValue (val ++ newline :: rest)) :: dotenvLoop n rest := by
  have shape : kvText key val ++ rest = key ++ 61 :: (val ++ newline :: rest) := by simp [kvText]
  have next := next_of_kvText named line rest
  rw [shape] at next
  have short := named.short
  rw [dotenvLoop]
  simp only [named.starts, takeWhile_before named.plain.1, drop_key, next]
  obtain ⟨b, more, rfl, -, -, notHash, -⟩ := named.start
  rw [if_neg (by simp), if_neg (by simp [notHash]), if_neg (by simpa using named.plain.2), if_neg]
  simp only [length_cons] at short ⊢
  simp
  omega

theorem dotenvLoop_entry (named : PlainKey key) (plain : ListText val) (short : val.length ≤ 4095)
    (n : Nat) (rest : Bytes) : dotenvLoop (n + 1) (writeKv key val ++ rest) = (key, val) :: dotenvLoop n rest := by
  have apart := plain.apart
  have noLine : newline ∉ val := fun member => (apart _ member).1 rfl
  unfold writeKv
  split
  · rw [escapeQuoted_listText plain, kvQuoted, dotenvLoop_line named]
    · have shape : 34 :: (val ++ [34]) ++ newline :: rest = 34 :: (val ++ 34 :: newline :: rest) := by simp
      rw [shape, kvValue_quoted (fun b member => ⟨(apart b member).2.1, (apart b member).2.2.1⟩) short]
    · simp only [mem_cons, mem_append, not_mem_nil, or_false, not_or]
      exact ⟨by decide, noLine, by decide⟩
  · rw [dotenvLoop_line named noLine]
    have unquoted : val.head? ≠ some 34 := fun first => (apart _ (mem_of_mem_head? first)).2.1 rfl
    rw [kvValue_unquoted noLine unquoted short]

theorem length_printInt (slot : SlotValue n) : (printInt n).length ≤ 10 := by
  rw [printInt_of_slotValue slot]
  obtain ⟨low, high⟩ := slot
  exact length_decimal_le (show n.toNat < 10 ^ 10 by norm_num; omega) (by decide)

theorem length_format (slots : ∀ n ∈ l, SlotValue n) : (formatPidList l).length ≤ 11 * l.length := by
  induction l with
  | nil => exact Nat.le_refl 0
  | cons n rest ih =>
    obtain ⟨lead, text, blank, -⟩ := formatPidList_cons n rest
    have one := length_printInt (slots n mem_cons_self)
    have others := ih fun m member => slots m (mem_cons_of_mem _ member)
    have space : lead.length ≤ 1 := by
      rcases blank with rfl | rfl <;> decide
    rw [text]
    simp only [length_append, length_cons]
    omega

structure Sound (ctx : StateCtx) : Prop where
  focus : SlotValue ctx.focus
  order : ∀ n ∈ ctx.order, SlotValue n ∧ n ≠ 0
  nums : ∀ n ∈ ctx.nums, SlotValue n
  few : ctx.order.length ≤ maxWindows
  slots : ctx.nums.length ≤ maxWindows
  distinct : (ctx.nums.filter (· ≠ 0)).Nodup
  same : (ctx.nums.filter (· ≠ 0)).Perm ctx.order

theorem Sound.order_nil {ctx} (sound : Sound ctx) (none : ctx.nums = []) : ctx.order = [] := by
  have same := sound.same
  rw [none, filter_nil] at same
  exact nil_perm.mp same

theorem dotenvLoop_list (named : PlainKey key) (slots : ∀ n ∈ l, SlotValue n)
    (few : l.length ≤ maxWindows) (n : Nat) (rest : Bytes) :
    dotenvLoop (n + 1) ((if (formatPidList l).length > 0 then writeKv key (formatPidList l) else []) ++ rest) =
      if l = [] then dotenvLoop (n + 1) rest else (key, formatPidList l) :: dotenvLoop n rest := by
  have short : (formatPidList l).length ≤ 4095 := by
    have := length_format slots
    simp only [maxWindows] at few
    omega
  by_cases empty : l = []
  · subst empty
    rfl
  · have some : (formatPidList l).length > 0 :=
      lt_of_lt_of_le (length_pos_iff.mpr empty) (length_le_formatPidList l)
    rw [if_pos some, if_neg empty, dotenvLoop_entry named (listText_format slots) short]

theorem dotenvLoop_nil (n : Nat) : dotenvLoop n [] = [] := by
  cases n <;> rfl

theorem plainKey_focus : PlainKey (ascii "FOCUS") := ⟨⟨70, ascii "OCUS", rfl, by decide⟩, by decide, by decide⟩

theorem plainKey_order : PlainKey (ascii "WINDOW_ORDER") :=
  ⟨⟨87, ascii "INDOW_ORDER", rfl, by decide⟩, by decide, by decide⟩

theorem plainKey_nums : PlainKey (ascii "WINDOW_NUMS") :=
  ⟨⟨87, ascii "INDOW_NUMS", rfl, by decide⟩, by decide, by decide⟩

def stateEntries (ctx : StateCtx) : List (Bytes × Bytes) :=
  (if ctx.focus > 0 then [(ascii "FOCUS", printInt ctx.focus)] else []) ++
    ((if ctx.order = [] then [] else [(ascii "WINDOW_ORDER", formatPidList ctx.order)]) ++
      (if ctx.nums = [] then [] else [(ascii "WINDOW_NUMS", formatPidList ctx.nums)]))

section Text

variable {ctx : StateCtx}

theorem dotenvLoop_stateText (sound : Sound ctx) (n : Nat) : dotenvLoop (n + 1 + 1 + 1) (stateText ctx) = stateEntries ctx := by
  have lists (m : Nat) (order : List Int) (slots : ∀ n ∈ order, SlotValue n) (few : order.length ≤ maxWindows) :
      dotenvLoop (m + 1 + 1)
        ((if (formatPidList order).length > 0 then writeKv (ascii "WINDOW_ORDER") (formatPidList order) else []) ++
          (if (formatPidList ctx.nums).length > 0 then writeKv (ascii "WINDOW_NUMS") (formatPidList ctx.nums) else [])) =
        (if order = [] then [] else [(ascii "WINDOW_ORDER", formatPidList order)]) ++
          (if ctx.nums = [] then [] else [(ascii "WINDOW_NUMS", formatPidList ctx.nums)]) := by
    have nums (k : Nat) := dotenvLoop_list plainKey_nums sound.nums sound.slots k []
    simp only [append_nil, dotenvLoop_nil] at nums
    rw [dotenvLoop_list plainKey_order slots few, nums, nums]
    split <;> rfl
  have order : ∀ n ∈ ctx.order, SlotValue n := fun n member => (sound.order n member).1
  unfold stateText stateEntries
  by_cases focused : ctx.focus > 0
  · have short : (printInt ctx.focus).length ≤ 4095 := le_trans (length_printInt sound.focus) (by decide)
    rw [if_pos focused, if_pos focused, dotenvLoop_entry plainKey_focus (listText_printInt sound.focus) short,
      lists n ctx.order order sound.few]
    rfl
  · rw [if_neg focused, if_neg focused, nil_append, nil_append, lists (n + 1) ctx.order order sound.few]

theorem writeKv_nonzero {key val} (named : 0 ∉ key) (plain : ListText val) : 0 ∉ writeKv key val := by
  have value : 0 ∉ val := fun member => (plain.apart _ member).2.2.2.2.2 rfl
  unfold writeKv
  rw [escapeQuoted_listText plain]
  split
  · simp only [kvQuoted, kvText, mem_append, mem_cons, not_mem_nil, or_false, not_or]
    exact ⟨named, by decide, ⟨by decide, value, by decide⟩, by decide⟩
  · simp only [kvText, mem_append, mem_cons, not_mem_nil, or_false, not_or]
    exact ⟨named, by decide, value, by decide⟩

theorem stateText_nonzero (sound : Sound ctx) : 0 ∉ stateText ctx := by
  have order := listText_format fun n member => (sound.order n member).1
  have nums := listText_format sound.nums
  simp only [stateText, mem_append, not_or]
  refine ⟨?_, ?_, ?_⟩
  · split
    · exact writeKv_nonzero (by decide) (listText_printInt sound.focus)
    · exact not_mem_nil
  · split
    · exact writeKv_nonzero (by decide) order
    · exact not_mem_nil
  · split
    · exact writeKv_nonzero (by decide) nums
    · exact not_mem_nil

theorem two_le_writeKv {key} (named : PlainKey key) (val : Bytes) : 2 ≤ (writeKv key val).length := by
  obtain ⟨b, rest, rfl, -⟩ := named.start
  unfold writeKv kvQuoted kvText
  split <;> simp <;> omega

theorem stateText_short (short : (stateText ctx).length < 2) : stateText ctx = [] := by
  have focus := two_le_writeKv plainKey_focus (printInt ctx.focus)
  have order := two_le_writeKv plainKey_order (formatPidList ctx.order)
  have nums := two_le_writeKv plainKey_nums (formatPidList ctx.nums)
  simp only [stateText, length_append] at short ⊢
  split_ifs at short ⊢ <;> first | rfl | omega

theorem parseDotenv_stateText (sound : Sound ctx) : parseDotenv (stateText ctx) = stateEntries ctx := by
  by_cases short : (stateText ctx).length < 2
  · have entries := dotenvLoop_stateText sound 0
    rw [parseDotenv, stateText_short short]
    rw [stateText_short short] at entries
    rw [← entries]
    rfl
  · obtain ⟨n, rounds⟩ : ∃ n, (stateText ctx).length + 1 = n + 1 + 1 + 1 := ⟨(stateText ctx).length - 2, by omega⟩
    rw [parseDotenv, rounds, dotenvLoop_stateText sound]

theorem stateParse_stateText (sound : Sound ctx) : stateParse (stateText ctx) = ctx := by
  have whole : (stateText ctx).takeWhile (· ≠ 0) = stateText ctx := by
    refine takeWhile_eq_self_iff.mpr fun b member => ?_
    simp only [ne_eq, decide_eq_true_eq]
    rintro rfl
    exact stateText_nonzero sound member
  have order : parsePidList (formatPidList ctx.order) maxWindows false = ctx.order := by
    refine parsePidList_format (fun n member => (sound.order n member).1) (fun n member => .inl ?_) sound.few
    obtain ⟨⟨low, -⟩, nonzero⟩ := sound.order n member
    omega
  have nums : parsePidList (formatPidList ctx.nums) maxWindows true = ctx.nums :=
    parsePidList_format sound.nums (fun n member => .inr rfl) sound.slots
  have focus : toPid (((scanSigned (printInt ctx.focus)).map (·.1)).getD 0) = ctx.focus := by
    obtain ⟨low, high⟩ := sound.focus
    have scanned := @scanSigned_decimal [] ctx.focus.toNat (by omega) nofun
    rw [append_nil] at scanned
    rw [printInt_of_slotValue sound.focus, scanned, Option.map_some, Option.getD_some, Int.toNat_of_nonneg low,
      toPid_of_slotValue sound.focus]
  have parsed : (stateEntries ctx).foldl parseCb {} = ctx := by
    have none : ¬ ctx.focus > 0 → ctx.focus = 0 := by
      obtain ⟨low, -⟩ := sound.focus
      omega
    have keys : ascii "WINDOW_ORDER" ≠ ascii "FOCUS" ∧ ascii "WINDOW_NUMS" ≠ ascii "FOCUS" ∧
        ascii "WINDOW_NUMS" ≠ ascii "WINDOW_ORDER" := by decide
    obtain ⟨f, o, s⟩ := ctx
    simp only at order nums focus none
    unfold stateEntries
    split_ifs with focused noOrder noNums noNums noOrder noNums noNums <;>
      simp_all [parseCb]
  have migrated : ¬ (ctx.nums = [] ∧ ctx.order ≠ []) := fun missing => missing.2 (sound.order_nil missing.1)
  rw [stateParse]
  simp only [whole, parseDotenv_stateText sound, parsed]
  rw [if_neg migrated]

end Text

end Lumimux.Sessdir
