import Mathlib.Data.List.TakeWhile
import Lumimux.Lib.Decimal

/-!
# Scanning text (`sscanf`)

The conversions `%lu` and `%Ns` as functions to the value and the text left.
-/

namespace Lumimux.Lib
open List

def isSpace (b : UInt8) : Bool := b = 32 || (9 ≤ b && b ≤ 13)

def isDigit (b : UInt8) : Bool := 48 ≤ b && b ≤ 57

def skipSpace (text : Bytes) : Bytes := text.dropWhile isSpace

def unsignedValue (negative : Bool) (digits : Bytes) : UInt64 :=
  let n := digits.foldl (readDigit none) 0
  if n < 2 ^ 64 then (if negative then -UInt64.ofNat n else UInt64.ofNat n) else UInt64.ofNat (2 ^ 64 - 1)

def scanDigits (negative : Bool) (text : Bytes) : Option (UInt64 × Bytes) :=
  if (text.takeWhile isDigit).isEmpty then none
  else some (unsignedValue negative (text.takeWhile isDigit), text.dropWhile isDigit)

def scanUnsigned (text : Bytes) : Option (UInt64 × Bytes) :=
  match skipSpace text with
  | 43 :: rest => scanDigits false rest
  | 45 :: rest => scanDigits true rest
  | rest => scanDigits false rest

def signedValue (negative : Bool) (digits : Bytes) : Int :=
  let n : Int := (digits.foldl (readDigit none) 0 : Nat)
  if negative then max (-n) (-9223372036854775808) else min n 9223372036854775807

def scanSignedDigits (negative : Bool) (text : Bytes) : Option (Int × Bytes) :=
  if (text.takeWhile isDigit).isEmpty then none
  else some (signedValue negative (text.takeWhile isDigit), text.dropWhile isDigit)

def scanSigned (text : Bytes) : Option (Int × Bytes) :=
  match skipSpace text with
  | 43 :: rest => scanSignedDigits false rest
  | 45 :: rest => scanSignedDigits true rest
  | rest => scanSignedDigits false rest

def scanWord (limit : Nat) (text : Bytes) : Option (Bytes × Bytes) :=
  let word := ((skipSpace text).take limit).takeWhile fun b => !isSpace b
  if word.isEmpty then none else some (word, (skipSpace text).drop word.length)

def EndsAt (class_ : UInt8 → Bool) (text : Bytes) : Prop := ∀ b rest, text = b :: rest → class_ b = false

theorem endsAt_nil (class_ : UInt8 → Bool) : EndsAt class_ [] := by
  intro b rest same
  cases same

variable {rest digits : Bytes} {b : UInt8}

theorem takeWhile_endsAt {p : UInt8 → Bool} {xs} (all : ∀ b ∈ xs, p b = true) (ends : EndsAt p rest) :
    (xs ++ rest).takeWhile p = xs ∧ (xs ++ rest).dropWhile p = rest := by
  have stop : rest.takeWhile p = [] ∧ rest.dropWhile p = rest := by
    cases rest with
    | nil => exact ⟨rfl, rfl⟩
    | cons b rest => simp [ends b rest rfl]
  rw [takeWhile_append_of_pos all, dropWhile_append_of_pos all, stop.1, stop.2, append_nil]
  exact ⟨rfl, rfl⟩

theorem digit_byte {d} (h : d < 10) : isDigit (digitByte d) = true ∧ isSpace (digitByte d) = false ∧
    digitByte d ≠ 43 ∧ digitByte d ≠ 45 ∧ digitByte d ≠ 10 ∧ digitByte d ≠ 0 := by
  have table : ∀ d < 10, isDigit (digitByte d) = true ∧ isSpace (digitByte d) = false ∧
    digitByte d ≠ 43 ∧ digitByte d ≠ 45 ∧ digitByte d ≠ 10 ∧ digitByte d ≠ 0 := by decide
  exact table d h

theorem isDigit_apart (digit : isDigit b = true) : isSpace b = false ∧ b ≠ 43 ∧ b ≠ 45 := by
  have low : (48 : UInt8) ≤ b := by
    simp only [isDigit, Bool.and_eq_true, decide_eq_true_eq] at digit
    exact digit.1
  refine ⟨?_, ?_, ?_⟩
  · simp only [isSpace, Bool.or_eq_false_iff, decide_eq_false_iff_not, Bool.and_eq_false_iff]
    refine ⟨?_, .inr fun high => absurd (UInt8.le_trans low high) (by decide)⟩
    rintro rfl
    exact absurd low (by decide)
  · rintro rfl
    exact absurd low (by decide)
  · rintro rfl
    exact absurd low (by decide)

theorem digits_start (nonempty : digits ≠ []) (all : ∀ b ∈ digits, isDigit b = true) (rest : Bytes) :
    ∃ first more, skipSpace (digits ++ rest) = first :: more ∧ first :: more = digits ++ rest ∧ first ≠ 43 ∧ first ≠ 45 := by
  obtain ⟨first, more, rfl⟩ := exists_cons_of_ne_nil nonempty
  obtain ⟨visible, notPlus, notMinus⟩ := isDigit_apart (all first mem_cons_self)
  refine ⟨first, more ++ rest, ?_, rfl, notPlus, notMinus⟩
  rw [skipSpace, cons_append, dropWhile_cons, visible]
  rfl

theorem scanUnsigned_digits (nonempty : digits ≠ []) (all : ∀ b ∈ digits, isDigit b = true)
    (ends : EndsAt isDigit rest) : scanUnsigned (digits ++ rest) = some (unsignedValue false digits, rest) := by
  have scanned : scanDigits false (digits ++ rest) = some (unsignedValue false digits, rest) := by
    obtain ⟨taken, left⟩ := takeWhile_endsAt all ends
    rw [scanDigits, taken, left, if_neg (by simpa using nonempty)]
  obtain ⟨first, more, skipped, shape, notPlus, notMinus⟩ := digits_start nonempty all rest
  rw [← shape] at scanned
  rw [scanUnsigned, skipped]
  split
  · rename_i same
    exact absurd (List.cons.inj same).1 notPlus
  · rename_i same
    exact absurd (List.cons.inj same).1 notMinus
  · exact scanned

theorem scanSignedDigits_append (negative : Bool) (nonempty : digits ≠ [])
    (all : ∀ b ∈ digits, isDigit b = true) (ends : EndsAt isDigit rest) :
    scanSignedDigits negative (digits ++ rest) = some (signedValue negative digits, rest) := by
  obtain ⟨taken, left⟩ := takeWhile_endsAt all ends
  rw [scanSignedDigits, taken, left, if_neg (by simpa using nonempty)]

theorem decimal_isDigit (n : Nat) : ∀ b ∈ decimal n, isDigit b = true := by
  intro b member
  obtain ⟨d, small, rfl⟩ := decimal_digits _ b member
  exact (digit_byte small).1

/-- **A printed number is read back by `strtol`**, up to what follows its digits. -/
theorem scanSigned_decimal {n} (small : n < 9223372036854775808) (ends : EndsAt isDigit rest) :
    scanSigned (decimal n ++ rest) = some ((n : Int), rest) := by
  have scanned := scanSignedDigits_append false (decimal_ne_nil n) (decimal_isDigit n) ends
  have value : signedValue false (decimal n) = n := by
    rw [signedValue, decimal_read rfl]
    simp only [Bool.false_eq_true, if_false]
    omega
  obtain ⟨first, more, skipped, shape, notPlus, notMinus⟩ := digits_start (decimal_ne_nil n) (decimal_isDigit n) rest
  rw [← shape, value] at scanned
  rw [scanSigned, skipped]
  split
  · rename_i same
    exact absurd (List.cons.inj same).1 notPlus
  · rename_i same
    exact absurd (List.cons.inj same).1 notMinus
  · exact scanned

theorem scanSigned_minus {n} (small : n ≤ 9223372036854775808) (ends : EndsAt isDigit rest) :
    scanSigned (45 :: decimal n ++ rest) = some (-(n : Int), rest) := by
  have scanned := scanSignedDigits_append true (decimal_ne_nil n) (decimal_isDigit n) ends
  have value : signedValue true (decimal n) = -(n : Int) := by
    rw [signedValue, decimal_read rfl]
    simp only [if_true]
    omega
  rw [value] at scanned
  exact scanned

/-- **A printed number is scanned back**, up to what follows its digits. -/
theorem scanUnsigned_decimal (n : UInt64) (ends : EndsAt isDigit rest) :
    scanUnsigned (decimal n.toNat ++ rest) = some (n, rest) := by
  have read : (decimal n.toNat).foldl (readDigit none) 0 = n.toNat := decimal_read rfl
  rw [scanUnsigned_digits (decimal_ne_nil n.toNat) (decimal_isDigit n.toNat) ends, unsignedValue, read, if_pos n.toNat_lt]
  simp

theorem scanUnsigned_space (text : Bytes) : scanUnsigned (32 :: text) = scanUnsigned text := rfl

theorem scanWord_space (limit : Nat) (text : Bytes) : scanWord limit (32 :: text) = scanWord limit text := rfl

/-- **A printed word is scanned back**, up to the white space behind it. -/
theorem scanWord_append {limit word} (nonempty : word ≠ []) (short : word.length ≤ limit)
    (visible : ∀ b ∈ word, isSpace b = false) (ends : ∀ b more, rest = b :: more → isSpace b = true) :
    scanWord limit (word ++ rest) = some (word, rest) := by
  have skipped : skipSpace (word ++ rest) = word ++ rest := by
    obtain ⟨first, more, rfl⟩ := exists_cons_of_ne_nil nonempty
    rw [skipSpace, cons_append, dropWhile_cons, visible first mem_cons_self]
    rfl
  have taken : ((word ++ rest).take limit).takeWhile (fun b => !isSpace b) = word := by
    rw [take_append, take_of_length_le short]
    refine (takeWhile_endsAt (fun b member => by simp [visible b member]) fun b more same => ?_).1
    cases rest with
    | nil => simp at same
    | cons c rest =>
      have blank := ends c rest rfl
      cases room : limit - word.length with
      | zero => simp [room] at same
      | succ k =>
        rw [room, take_succ_cons, List.cons.injEq] at same
        rw [← same.1, blank]
        rfl
  simp only [scanWord, skipped, taken]
  rw [if_neg (by simpa using nonempty), drop_left]

def wordsOf : Bytes → List Bytes
  | [] => []
  | [b] => if isSpace b then [] else [[b]]
  | b :: c :: rest =>
    if isSpace b then wordsOf (c :: rest)
    else if isSpace c then [b] :: wordsOf (c :: rest)
    else (wordsOf (c :: rest)).modifyHead (b :: ·)

end Lumimux.Lib
