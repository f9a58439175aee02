import Mathlib.Order.Bounds.Basic
import Lumimux.Utf8.RoundTrip

/-!
# Truncation

A character cut by the limit decodes to the replacement character, which ends the walk of `utf8_trunc`; but so does one
of the text (`trunc_largest_iff`).
-/

namespace Lumimux.Utf8
open List

structure Text where
  chars : List Nat
  scalar : ∀ c ∈ chars, Scalar c ∧ c ≠ 0

namespace Text

def front (t : Text) (k : Nat) : Bytes := (t.chars.take k).flatMap utf8Encode

def bytes (t : Text) : Bytes := t.chars.flatMap utf8Encode

/-- A character ends at byte `n`. -/
def Boundary (t : Text) (n : Nat) : Prop := ∃ k, n = (t.front k).length

/-- No replacement character ends within `n` bytes. -/
def NoneWithin (t : Text) (n : Nat) : Prop := ∀ k, t.chars[k]? = some runeError → n < (t.front (k + 1)).length

end Text

def fitting : List Nat → Nat → Nat
  | [], _ => 0
  | c :: cs, left => if (utf8Encode c).length ≤ left then (utf8Encode c).length + fitting cs (left - (utf8Encode c).length) else 0

theorem encode_pos {c} (scalar : Scalar c) : 0 < (utf8Encode c).length := by
  rw [encode_length scalar]
  split_ifs <;> decide

theorem encode_head {c} (scalar : Scalar c) (real : c ≠ 0) (rest : Bytes) : (utf8Encode c ++ rest).head?.getD 0 ≠ 0 := by
  by_cases small : c ≤ 0x7F
  · have table : ∀ n < 0x80, n ≠ 0 → UInt8.ofNat n ≠ 0 := by decide
    rw [utf8Encode, if_pos small]
    exact table c (by omega) real
  · obtain ⟨lead, bits, tails, shape, announced, -, -⟩ := encode_shape scalar (by omega)
    have high := not_ascii_of_leadByte announced
    rw [shape]
    rintro rfl
    exact absurd high (by decide)

theorem readContinuation_short {n v bytes} (short : bytes.length < n) : readContinuation n v bytes = none := by
  induction n generalizing v bytes with
  | zero => exact absurd short (Nat.not_lt_zero _)
  | succ n ih =>
    cases bytes with
    | nil => rfl
    | cons b rest => rw [readContinuation, ih (Nat.lt_of_succ_lt_succ short), ite_self]

theorem decode_cut {c left} (scalar : Scalar c) (cut : left < (utf8Encode c).length) (rest : Bytes) :
    (utf8Decode ((utf8Encode c ++ rest).take left)).1 = runeError := by
  cases left with
  | zero => rfl
  | succ n =>
    by_cases small : c ≤ 0x7F
    · rw [utf8Encode, if_pos small, length_singleton] at cut
      omega
    · obtain ⟨lead, bits, tails, shape, announced, -, -⟩ := encode_shape scalar (by omega)
      rw [shape, length_cons] at cut
      have short : ((tails ++ rest).take n).length < tails.length :=
        Nat.lt_of_le_of_lt (length_take_le _ _) (Nat.lt_of_succ_lt_succ cut)
      have high := not_ascii_of_leadByte announced
      rw [shape, cons_append, take_succ_cons, utf8Decode, if_neg (by omega), announced]
      dsimp only
      rw [Nat.add_sub_cancel, readContinuation_short short]

theorem fitting_le (cs : List Nat) (left : Nat) : fitting cs left ≤ left := by
  induction cs generalizing left with
  | nil => exact Nat.zero_le _
  | cons c cs ih =>
    have rest := ih (left - (utf8Encode c).length)
    rw [fitting]
    split
    · omega
    · exact Nat.zero_le _

theorem fitting_boundary (cs : List Nat) (left : Nat) : ∃ k, fitting cs left = ((cs.take k).flatMap utf8Encode).length := by
  induction cs generalizing left with
  | nil => exact ⟨0, rfl⟩
  | cons c cs ih =>
    rw [fitting]
    split
    · obtain ⟨k, rest⟩ := ih (left - (utf8Encode c).length)
      refine ⟨k + 1, ?_⟩
      rw [take_succ_cons, flatMap_cons, length_append, rest]
    · exact ⟨0, rfl⟩

theorem le_fitting {cs left k} (fits : ((cs.take k).flatMap utf8Encode).length ≤ left) :
    ((cs.take k).flatMap utf8Encode).length ≤ fitting cs left := by
  induction cs generalizing left k with
  | nil =>
    rw [take_nil]
    exact Nat.zero_le _
  | cons c cs ih =>
    cases k with
    | zero => exact Nat.zero_le _
    | succ k =>
      rw [take_succ_cons, flatMap_cons, length_append] at fits ⊢
      have rest := @ih (left - (utf8Encode c).length) k (by omega)
      rw [fitting, if_pos (by omega)]
      omega

theorem fitting_greatest (t : Text) (left : Nat) :
    IsGreatest {n | n ≤ left ∧ n ≤ t.bytes.length ∧ t.Boundary n} (fitting t.chars left) := by
  constructor
  · obtain ⟨k, shape⟩ := fitting_boundary t.chars left
    refine ⟨fitting_le t.chars left, ?_, k, shape⟩
    have whole : t.bytes = t.front k ++ (t.chars.drop k).flatMap utf8Encode := by
      rw [Text.front, ← flatMap_append, take_append_drop]
      rfl
    rw [shape, whole, length_append]
    exact Nat.le_add_right _ _
  · rintro n ⟨inside, -, k, rfl⟩
    exact le_fitting inside

theorem truncLoop_eq_iff {cs} (scalar : ∀ c ∈ cs, Scalar c ∧ c ≠ 0) {fuel left} (enough : left < fuel) :
    truncLoop fuel (cs.flatMap utf8Encode) left = fitting cs left ↔
      ∀ k, cs[k]? = some runeError → left < ((cs.take (k + 1)).flatMap utf8Encode).length := by
  induction cs generalizing fuel left with
  | nil =>
    obtain ⟨fuel, rfl⟩ : ∃ n, fuel = n + 1 := ⟨fuel - 1, by omega⟩
    rw [flatMap_nil, truncLoop, if_pos (.inr rfl)]
    exact iff_of_true rfl fun k found => by cases found
  | cons c cs ih =>
    obtain ⟨fuel, rfl⟩ : ∃ n, fuel = n + 1 := ⟨fuel - 1, by omega⟩
    obtain ⟨⟨isScalar, real⟩, others⟩ := forall_mem_cons.mp scalar
    have pos := encode_pos isScalar
    have ends : ∀ k, (((c :: cs).take (k + 1)).flatMap utf8Encode).length =
        (utf8Encode c).length + ((cs.take k).flatMap utf8Encode).length := by
      intro k
      rw [take_succ_cons, flatMap_cons, length_append]
    rw [flatMap_cons, fitting]
    by_cases fits : (utf8Encode c).length ≤ left
    · have read : utf8Decode ((utf8Encode c ++ cs.flatMap utf8Encode).take left) = (c, (utf8Encode c).length) := by
        rw [take_append, take_of_length_le fits]
        exact decode_encode isScalar _
      rw [truncLoop, if_neg (not_or.mpr ⟨by omega, encode_head isScalar real _⟩), if_pos fits, read]
      dsimp only
      by_cases replacement : c = runeError
      · -- the walk stops in front of the character, which fits
        rw [if_pos (.inr replacement)]
        refine iff_of_false (by omega) fun none => ?_
        have here := none 0 (congrArg some replacement)
        rw [ends 0, take_zero, flatMap_nil, length_nil] at here
        omega
      · rw [if_neg (not_or.mpr ⟨by omega, replacement⟩), drop_left, Nat.add_left_cancel_iff,
          @ih others fuel (left - (utf8Encode c).length) (by omega)]
        constructor
        · intro none k found
          cases k with
          | zero => exact absurd (Option.some.inj found) replacement
          | succ k =>
            have later := none k found
            rw [ends (k + 1)]
            omega
        · intro none k found
          have later := none (k + 1) found
          rw [ends (k + 1)] at later
          omega
    · have stops : truncLoop (fuel + 1) (utf8Encode c ++ cs.flatMap utf8Encode) left = 0 := by
        rw [truncLoop]
        split
        · rfl
        · exact if_pos (.inr (decode_cut isScalar (by omega) _))
      rw [stops, if_neg fits]
      refine iff_of_true rfl fun k _ => ?_
      rw [ends k]
      omega

theorem text_of_empty {s : Bytes} (none : s.length ≤ 0) : ∃ t : Text, s = t.bytes ∧ runeError ∉ t.chars :=
  ⟨⟨[], fun _ found => absurd found not_mem_nil⟩, eq_nil_of_length_eq_zero (Nat.le_zero.mp none), not_mem_nil⟩

theorem text_of_truncLoop {fuel s left} (real : ∀ b ∈ s, b ≠ 0) (whole : s.length ≤ truncLoop fuel s left) :
    ∃ t : Text, s = t.bytes ∧ runeError ∉ t.chars := by
  induction fuel generalizing s left with
  | zero => exact text_of_empty whole
  | succ fuel ih =>
    rw [truncLoop] at whole
    split at whole
    · exact text_of_empty whole
    · dsimp only at whole
      split at whole
      · exact text_of_empty whole
      · rename_i read
        obtain ⟨-, known⟩ := not_or.mp read
        obtain ⟨scalar, front⟩ := encode_decode known
        generalize decoded : utf8Decode (s.take left) = char at *
        obtain ⟨c, n⟩ := char
        dsimp only at *
        -- the length that was decoded is the one of the character
        have same := decode_encode scalar ((s.take left).drop n)
        rw [front, take_append_drop, decoded] at same
        have inside : n ≤ (s.take left).length := by
          have length := congrArg Prod.snd same
          rw [length_take] at length
          dsimp only at length
          omega
        have head : s.take n = utf8Encode c := by
          rw [front, take_take, min_eq_left (Nat.le_trans inside (length_take_le _ _))]
        obtain ⟨t, rest, others⟩ := @ih (s.drop n) (left - n) (fun b member => real b (mem_of_mem_drop member))
          (by rw [length_drop]; omega)
        have nonzero : c ≠ 0 := by
          rintro rfl
          refine real 0 (mem_of_mem_take (i := n) ?_) rfl
          rw [head]
          exact mem_cons_self
        refine ⟨⟨c :: t.chars, ?_⟩, ?_, ?_⟩
        · exact forall_mem_cons.mpr ⟨⟨scalar, nonzero⟩, t.scalar⟩
        · rw [Text.bytes, flatMap_cons, ← head]
          exact (take_append_drop n s).symm.trans (congrArg (s.take n ++ ·) rest)
        · exact not_mem_cons_of_ne_of_not_mem (Ne.symm known) others

/-- Nothing is cut off a string that fits just when it is the text of characters other than the replacement character. -/
theorem trunc_whole_iff {s : Bytes} (real : ∀ b ∈ s, b ≠ 0) {maxbytes} (fits : s.length < maxbytes) :
    s.length ≤ utf8Trunc s maxbytes ↔ ∃ t : Text, s = t.bytes ∧ runeError ∉ t.chars := by
  rw [utf8Trunc, if_neg (by omega)]
  constructor
  · exact text_of_truncLoop real
  · rintro ⟨t, rfl, none⟩
    have walk := (truncLoop_eq_iff t.scalar (by omega : maxbytes - 1 < maxbytes)).mpr
      fun k found => absurd (mem_of_getElem? found) none
    have all : ((t.chars.take t.chars.length).flatMap utf8Encode).length ≤ maxbytes - 1 := by
      rw [take_length]
      exact Nat.le_sub_one_of_lt fits
    have most := le_fitting all
    rw [take_length] at most
    rw [Text.bytes, walk]
    exact most

/-- **Truncation keeps as much as fits** just when no replacement character of the text ends within the limit. -/
theorem trunc_largest_iff (t : Text) {maxbytes : Nat} (room : 1 ≤ maxbytes) :
    IsGreatest {n | n ≤ maxbytes - 1 ∧ n ≤ t.bytes.length ∧ t.Boundary n} (utf8Trunc t.bytes maxbytes) ↔
      t.NoneWithin (maxbytes - 1) := by
  have greatest := fitting_greatest t (maxbytes - 1)
  have walk : utf8Trunc t.bytes maxbytes = truncLoop maxbytes t.bytes (maxbytes - 1) := if_neg (by omega)
  refine Iff.trans ?_ (truncLoop_eq_iff t.scalar (by omega : maxbytes - 1 < maxbytes))
  rw [walk]
  exact ⟨fun isGreatest => isGreatest.unique greatest, fun same => same ▸ greatest⟩

theorem twoChars_scalar : ∀ c ∈ [0x61, 0x4E00], Scalar c ∧ c ≠ 0 := by decide

def twoChars : Text := ⟨[0x61, 0x4E00], twoChars_scalar⟩

theorem twoChars_cut : IsGreatest {n | n ≤ 4 - 1 ∧ n ≤ twoChars.bytes.length ∧ twoChars.Boundary n} (utf8Trunc twoChars.bytes 4) := by
  refine (trunc_largest_iff twoChars (by decide)).mpr fun k found => ?_
  have member := mem_of_getElem? found
  exact absurd member (by decide)

theorem replaced_scalar : ∀ c ∈ [runeError, 0x61], Scalar c ∧ c ≠ 0 := by decide

def replaced : Text := ⟨[runeError, 0x61], replaced_scalar⟩

theorem replaced_dropped :
    ¬ IsGreatest {n | n ≤ 8 - 1 ∧ n ≤ replaced.bytes.length ∧ replaced.Boundary n} (utf8Trunc replaced.bytes 8) := by
  intro greatest
  have whole : 4 ≤ utf8Trunc replaced.bytes 8 := greatest.2 ⟨by decide, by decide, 2, by decide⟩
  exact absurd whole (by decide)

end Lumimux.Utf8
