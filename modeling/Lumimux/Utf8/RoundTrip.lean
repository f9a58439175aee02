import Lumimux.Utf8.Codec

/-!
# Encoding then decoding

The bit operations are arithmetic on digits in base 64. A multi-byte encoding is a lead byte and bytes of six bits each
(`encode_shape`), which the decoder reads back.
-/

namespace Lumimux.Utf8
open List

def Tail (b : UInt8) : Prop := b.toNat &&& 0xC0 = 0x80
  deriving Decidable

def tailByte (x : Nat) : UInt8 := UInt8.ofNat (0x80 ||| x)

variable {x rune bits : Nat} {b : UInt8}

theorem tail_tailByte (h : x < 64) : Tail (tailByte x) := by
  revert x
  decide

theorem tailByte_bits (h : x < 64) : (tailByte x).toNat &&& 0x3F = x := by
  revert x
  decide

theorem and_low_six (x : Nat) : x &&& 0x3F = x % 64 := Nat.and_two_pow_sub_one_eq_mod x 6

theorem shift_or_low (h : x < 64) (v : Nat) : (v <<< 6) ||| x = v * 64 + x := by
  rw [← Nat.shiftLeft_add_eq_or_of_lt (i := 6) h v, Nat.shiftLeft_eq]

theorem readContinuation_zero (v : Nat) (rest : Bytes) : readContinuation 0 v rest = some v := by
  cases rest <;> rfl

theorem readContinuation_tail (h : x < 64) (n v : Nat) (rest : Bytes) :
    readContinuation (n + 1) v (tailByte x :: rest) = readContinuation n (v * 64 + x) rest := by
  have tail : (tailByte x).toNat &&& 0xC0 = 0x80 := tail_tailByte h
  rw [readContinuation, if_neg (not_not.mpr tail), tailByte_bits h, shift_or_low h]

theorem leadByte_two (h : x < 32) : leadByte (UInt8.ofNat (0xC0 ||| x)) = some (2, x) := by
  revert x
  decide

theorem leadByte_three (h : x < 16) : leadByte (UInt8.ofNat (0xE0 ||| x)) = some (3, x) := by
  revert x
  decide

theorem leadByte_four (h : x < 8) : leadByte (UInt8.ofNat (0xF0 ||| x)) = some (4, x) := by
  revert x
  decide

theorem not_ascii_of_leadByte {lead} (h : leadByte b = some lead) : 0x80 ≤ b.toNat := by
  have table : ∀ n < 128, leadByte (UInt8.ofNat n) = none := by decide
  by_contra small
  have := table b.toNat (by omega)
  rw [UInt8.ofNat_toNat, h] at this
  cases this

theorem encode_shape (scalar : Scalar rune) (wide : 0x7F < rune) :
    ∃ lead bits tails, utf8Encode rune = lead :: tails ∧ leadByte lead = some (tails.length + 1, bits) ∧
      (∀ b ∈ tails, Tail b) ∧ ∀ rest, readContinuation tails.length bits (tails ++ rest) = some rune := by
  obtain ⟨bound, notSurrogate⟩ := scalar
  simp only [runeMax] at bound
  have six (x : Nat) : x % 64 < 64 := Nat.mod_lt _ (by decide)
  unfold utf8Encode
  rw [if_neg (by omega)]
  simp only [Nat.shiftRight_eq_div_pow, and_low_six]
  split
  · refine ⟨_, _, [tailByte (rune % 64)], rfl, leadByte_two (by omega), ?_, fun rest => ?_⟩
    · simpa using tail_tailByte (six rune)
    · simp only [length_singleton, singleton_append, readContinuation_tail (six _), readContinuation_zero]
      congr 1
      omega
  · split
    · refine ⟨_, _, [tailByte (rune / 2 ^ 6 % 64), tailByte (rune % 64)], rfl, leadByte_three (by omega), ?_,
        fun rest => ?_⟩
      · simpa using ⟨tail_tailByte (six _), tail_tailByte (six _)⟩
      · simp only [length_cons, length_nil, cons_append, nil_append,
          readContinuation_tail (six _), readContinuation_zero]
        congr 1
        omega
    · rw [if_pos (by simpa only [runeMax] using bound)]
      refine ⟨_, _, [tailByte (rune / 2 ^ 12 % 64), tailByte (rune / 2 ^ 6 % 64), tailByte (rune % 64)], rfl,
        leadByte_four (by omega), ?_, fun rest => ?_⟩
      · simpa using ⟨tail_tailByte (six _), tail_tailByte (six _), tail_tailByte (six _)⟩
      · simp only [length_cons, length_nil, cons_append, nil_append,
          readContinuation_tail (six _), readContinuation_zero]
        congr 1
        omega

theorem encode_length (scalar : Scalar rune) : (utf8Encode rune).length =
      if rune ≤ 0x7F then 1 else if rune ≤ 0x7FF then 2 else if rune ≤ 0xFFFF then 3 else 4 := by
  obtain ⟨bound, notSurrogate⟩ := scalar
  unfold utf8Encode
  rw [if_neg notSurrogate, if_pos bound]
  split_ifs <;> rfl

theorem decode_encode (scalar : Scalar rune) (rest : Bytes) :
    utf8Decode (utf8Encode rune ++ rest) = (rune, (utf8Encode rune).length) := by
  by_cases small : rune ≤ 0x7F
  · have byte : (UInt8.ofNat rune).toNat = rune := UInt8.toNat_ofNat_of_lt' (by simp [UInt8.size]; omega)
    simp only [utf8Encode, if_pos small, singleton_append, utf8Decode, byte, length_singleton]
    rw [if_pos (by omega)]
  · have length := encode_length scalar
    obtain ⟨lead, bits, tails, shape, announced, -, loop⟩ := encode_shape scalar (by omega)
    obtain ⟨bound, notSurrogate⟩ := scalar
    rw [shape, length_cons] at length
    have high := not_ascii_of_leadByte announced
    rw [shape]
    simp only [cons_append, utf8Decode, announced, Nat.add_sub_cancel, loop]
    rw [if_neg (by omega), if_neg (by split_ifs at length <;> omega), if_neg (by omega), length_cons]

theorem tail_inv (tail : Tail b) : ∃ x < 64, b = tailByte x := by
  have table : ∀ n < 256, n &&& 0xC0 = 0x80 → UInt8.ofNat n = tailByte (n % 64) := by decide +kernel
  refine ⟨b.toNat % 64, Nat.mod_lt _ (by decide), ?_⟩
  rw [← table b.toNat b.toNat_lt tail, UInt8.ofNat_toNat]

theorem readContinuation_inv {n v u bytes} (read : readContinuation n v bytes = some u) :
    ∃ xs : List Nat, xs.length = n ∧ (∀ x ∈ xs, x < 64) ∧ bytes.take n = xs.map tailByte ∧
      u = xs.foldl (fun v x => v * 64 + x) v := by
  induction n generalizing v bytes with
  | zero =>
    rw [readContinuation_zero] at read
    exact ⟨[], rfl, fun x none => absurd none not_mem_nil, rfl, (Option.some.inj read).symm⟩
  | succ n ih =>
    cases bytes with
    | nil => cases read
    | cons b rest =>
      by_cases tail : Tail b
      · obtain ⟨x, small, rfl⟩ := tail_inv tail
        rw [readContinuation_tail small] at read
        obtain ⟨xs, length, each, shape, value⟩ := ih read
        refine ⟨x :: xs, by rw [length_cons, length], forall_mem_cons.mpr ⟨small, each⟩, ?_, value⟩
        rw [take_succ_cons, shape, map_cons]
      · have refused : b.toNat &&& 0xC0 ≠ 0x80 := tail
        rw [readContinuation, if_pos refused] at read
        cases read

theorem leadByte_inv {need} (lead : leadByte b = some (need, bits)) :
    (need = 2 ∧ bits < 32 ∧ b = UInt8.ofNat (0xC0 ||| bits)) ∨ (need = 3 ∧ bits < 16 ∧ b = UInt8.ofNat (0xE0 ||| bits)) ∨
      (need = 4 ∧ bits < 8 ∧ b = UInt8.ofNat (0xF0 ||| bits)) := by
  have table : ∀ n < 256, ∀ p ∈ leadByte (UInt8.ofNat n),
      (p.1 = 2 ∧ p.2 < 32 ∧ UInt8.ofNat n = UInt8.ofNat (0xC0 ||| p.2)) ∨
        (p.1 = 3 ∧ p.2 < 16 ∧ UInt8.ofNat n = UInt8.ofNat (0xE0 ||| p.2)) ∨
        (p.1 = 4 ∧ p.2 < 8 ∧ UInt8.ofNat n = UInt8.ofNat (0xF0 ||| p.2)) := by decide +kernel
  have here := table b.toNat b.toNat_lt (need, bits) (by rw [UInt8.ofNat_toNat]; exact lead)
  rwa [UInt8.ofNat_toNat] at here

theorem decode_inv {rest} (read : (utf8Decode (b :: rest)).1 ≠ runeError) :
    (b.toNat < 0x80 ∧ utf8Decode (b :: rest) = (b.toNat, 1)) ∨
      ∃ need bits v, leadByte b = some (need, bits) ∧ readContinuation (need - 1) bits rest = some v ∧ Scalar v ∧
        (need = 2 → 0x80 ≤ v) ∧ (need = 3 → 0x800 ≤ v) ∧ (need = 4 → 0x10000 ≤ v) ∧ utf8Decode (b :: rest) = (v, need) := by
  rw [utf8Decode] at read ⊢
  split at read
  · rename_i small
    exact .inl ⟨small, if_pos small⟩
  · rename_i large
    rw [if_neg large]
    cases lead : leadByte b with
    | none =>
      rw [lead] at read
      exact absurd rfl read
    | some p =>
      obtain ⟨need, bits⟩ := p
      rw [lead] at read
      dsimp only at read ⊢
      cases loop : readContinuation (need - 1) bits rest with
      | none =>
        rw [loop] at read
        exact absurd rfl read
      | some v =>
        rw [loop] at read
        dsimp only at read ⊢
        split at read
        · exact absurd rfl read
        · split at read
          · exact absurd rfl read
          · rename_i notLong inRange
            rw [if_neg notLong, if_neg inRange]
            refine .inr ⟨need, bits, v, rfl, loop, ?_, ?_, ?_, ?_, rfl⟩
            · exact ⟨by omega, by omega⟩
            all_goals omega

theorem encode_two (high : bits < 32) (low : x < 64) (long : 0x80 ≤ bits * 64 + x) :
    utf8Encode (bits * 64 + x) = [UInt8.ofNat (0xC0 ||| bits), tailByte x] := by
  have lead : (bits * 64 + x) / 2 ^ 6 = bits := by omega
  have tail : (bits * 64 + x) % 64 = x := by omega
  unfold utf8Encode
  rw [if_neg (by omega), if_pos (by omega), and_low_six, Nat.shiftRight_eq_div_pow, lead, tail]
  rfl

theorem encode_three {y} (high : bits < 16) (first : x < 64) (second : y < 64) (long : 0x800 ≤ (bits * 64 + x) * 64 + y)
    (scalar : Scalar ((bits * 64 + x) * 64 + y)) :
    utf8Encode ((bits * 64 + x) * 64 + y) = [UInt8.ofNat (0xE0 ||| bits), tailByte x, tailByte y] := by
  have lead : ((bits * 64 + x) * 64 + y) / 2 ^ 12 = bits := by omega
  have tail : ((bits * 64 + x) * 64 + y) / 2 ^ 6 % 64 = x := by omega
  have last : ((bits * 64 + x) * 64 + y) % 64 = y := by omega
  unfold utf8Encode
  rw [if_neg (by omega), if_neg (by omega), if_pos (by omega), if_neg scalar.2]
  simp only [and_low_six, Nat.shiftRight_eq_div_pow, lead, tail, last]
  rfl

theorem encode_four {y z} (first : x < 64) (second : y < 64) (third : z < 64)
    (long : 0x10000 ≤ ((bits * 64 + x) * 64 + y) * 64 + z) (scalar : Scalar (((bits * 64 + x) * 64 + y) * 64 + z)) :
    utf8Encode (((bits * 64 + x) * 64 + y) * 64 + z) =
      [UInt8.ofNat (0xF0 ||| bits), tailByte x, tailByte y, tailByte z] := by
  have lead : (((bits * 64 + x) * 64 + y) * 64 + z) / 2 ^ 18 = bits := by omega
  have tail : (((bits * 64 + x) * 64 + y) * 64 + z) / 2 ^ 12 % 64 = x := by omega
  have middle : (((bits * 64 + x) * 64 + y) * 64 + z) / 2 ^ 6 % 64 = y := by omega
  have last : (((bits * 64 + x) * 64 + y) * 64 + z) % 64 = z := by omega
  unfold utf8Encode
  rw [if_neg (by omega), if_neg (by omega), if_neg (by omega), if_pos scalar.1]
  simp only [and_low_six, Nat.shiftRight_eq_div_pow, lead, tail, middle, last]
  rfl

theorem encode_decode {s} (read : (utf8Decode s).1 ≠ runeError) :
    Scalar (utf8Decode s).1 ∧ utf8Encode (utf8Decode s).1 = s.take (utf8Decode s).2 := by
  cases s with
  | nil => exact absurd rfl read
  | cons b rest =>
    rcases decode_inv read with ⟨small, result⟩ | ⟨need, bits, v, lead, loop, scalar, two, three, four, result⟩
    · rw [result]
      refine ⟨⟨by simp only [runeMax]; omega, by omega⟩, ?_⟩
      rw [utf8Encode, if_pos (by omega), UInt8.ofNat_toNat, take_succ_cons, take_zero]
    · rw [result]
      refine ⟨scalar, ?_⟩
      obtain ⟨xs, length, each, bytes, rfl⟩ := readContinuation_inv loop
      have front : ∀ n, need = n + 1 → (b :: rest).take need = b :: xs.map tailByte := by
        rintro n rfl
        rw [take_succ_cons, ← bytes, Nat.add_sub_cancel]
      rcases leadByte_inv lead with ⟨rfl, high, rfl⟩ | ⟨rfl, high, rfl⟩ | ⟨rfl, high, rfl⟩
      · obtain ⟨x, rfl⟩ := length_eq_one_iff.mp length
        have low := each x mem_cons_self
        rw [front 1 rfl]
        exact encode_two high low (two rfl)
      · obtain ⟨x, y, rfl⟩ := length_eq_two.mp length
        obtain ⟨first, last⟩ := forall_mem_cons.mp each
        rw [front 2 rfl]
        exact encode_three high first (last y mem_cons_self) (three rfl) scalar
      · obtain ⟨x, y, z, rfl⟩ := length_eq_three.mp length
        obtain ⟨first, later⟩ := forall_mem_cons.mp each
        obtain ⟨second, last⟩ := forall_mem_cons.mp later
        rw [front 3 rfl]
        exact encode_four first second (last z mem_cons_self) (four rfl) scalar

/-- **The coding is a bijection** between scalar values and the byte strings the decoder accepts. -/
theorem coding_bijective : (∀ c, Scalar c → ∀ rest, utf8Decode (utf8Encode c ++ rest) = (c, (utf8Encode c).length)) ∧
      ∀ s, (utf8Decode s).1 ≠ runeError → Scalar (utf8Decode s).1 ∧ utf8Encode (utf8Decode s).1 = s.take (utf8Decode s).2 :=
  ⟨fun _ scalar rest => decode_encode scalar rest, fun _ read => encode_decode read⟩

theorem coding_bijective_han :
    utf8Decode (utf8Encode 0x4E00 ++ [0x21]) = (0x4E00, 3) ∧ utf8Encode (utf8Decode [0xE4, 0xB8, 0x80, 0x21]).1 = [0xE4, 0xB8, 0x80] :=
  ⟨coding_bijective.1 0x4E00 (by decide) [0x21], (coding_bijective.2 [0xE4, 0xB8, 0x80, 0x21] (by decide)).2⟩

end Lumimux.Utf8
