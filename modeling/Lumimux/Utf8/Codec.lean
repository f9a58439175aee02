import Lumimux.Lib.Decimal

/-!
# UTF-8 encoding and decoding (`libutf8/utf8.c`)

`utf8Encode` returns the empty list where the source returns length 0; `utf8Decode` returns the rune and the bytes
consumed.
-/

namespace Lumimux.Utf8

def runeError : Nat := 0xFFFD

def runeMax : Nat := 0x10FFFF

/-- A Unicode scalar value. -/
def Scalar (rune : Nat) : Prop :=
  rune ≤ runeMax ∧ ¬ (0xD800 ≤ rune ∧ rune ≤ 0xDFFF)
  deriving Decidable

def utf8Encode (rune : Nat) : Bytes :=
  if rune ≤ 0x7F then
    [UInt8.ofNat rune]
  else if rune ≤ 0x7FF then
    [UInt8.ofNat (0xC0 ||| (rune >>> 6)), UInt8.ofNat (0x80 ||| (rune &&& 0x3F))]
  else if rune ≤ 0xFFFF then
    if 0xD800 ≤ rune ∧ rune ≤ 0xDFFF then []
    else [UInt8.ofNat (0xE0 ||| (rune >>> 12)), UInt8.ofNat (0x80 ||| ((rune >>> 6) &&& 0x3F)),
      UInt8.ofNat (0x80 ||| (rune &&& 0x3F))]
  else if rune ≤ runeMax then
    [UInt8.ofNat (0xF0 ||| (rune >>> 18)), UInt8.ofNat (0x80 ||| ((rune >>> 12) &&& 0x3F)),
      UInt8.ofNat (0x80 ||| ((rune >>> 6) &&& 0x3F)), UInt8.ofNat (0x80 ||| (rune &&& 0x3F))]
  else []

def leadByte (b : UInt8) : Option (Nat × Nat) :=
  if b.toNat &&& 0xE0 = 0xC0 then some (2, b.toNat &&& 0x1F)
  else if b.toNat &&& 0xF0 = 0xE0 then some (3, b.toNat &&& 0x0F)
  else if b.toNat &&& 0xF8 = 0xF0 then some (4, b.toNat &&& 0x07)
  else none

def readContinuation : Nat → Nat → Bytes → Option Nat
  | 0, v, _ => some v
  | _ + 1, _, [] => none
  | n + 1, v, b :: rest =>
    if b.toNat &&& 0xC0 ≠ 0x80 then none
    else readContinuation n ((v <<< 6) ||| (b.toNat &&& 0x3F)) rest

def utf8Decode (s : Bytes) : Nat × Nat :=
  match s with
  | [] => (runeError, 0)
  | b :: rest =>
    if b.toNat < 0x80 then (b.toNat, 1)
    else match leadByte b with
      | none => (runeError, 1)
      | some (need, bits) =>
        match readContinuation (need - 1) bits rest with
        | none => (runeError, 1)
        | some v =>
          -- overlong forms, surrogates and values past the last plane are refused
          if need = 2 ∧ v < 0x80 ∨ need = 3 ∧ v < 0x800 ∨ need = 4 ∧ v < 0x10000 then (runeError, 1)
          else if 0xD800 ≤ v ∧ v ≤ 0xDFFF ∨ v > runeMax then (runeError, 1)
          else (v, need)

def truncLoop : Nat → Bytes → Nat → Nat
  | 0, _, _ => 0
  | fuel + 1, s, left =>
    if left = 0 ∨ s.head?.getD 0 = 0 then 0
    else
      let (cp, n) := utf8Decode (s.take left)
      if n = 0 ∨ cp = runeError then 0 else n + truncLoop fuel (s.drop n) (left - n)

def utf8Trunc (s : Bytes) (maxbytes : Nat) : Nat :=
  if maxbytes = 0 then 0 else truncLoop maxbytes s (maxbytes - 1)

end Lumimux.Utf8
