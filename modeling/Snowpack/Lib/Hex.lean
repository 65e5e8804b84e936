import Mathlib.Data.List.Basic
import Mathlib.Tactic.Common

/-!
# Hexadecimal text

A byte is written as two lower-case digits; digits of both cases are read (`decode`). Reading undoes
writing (`decode_encode`).
-/

namespace Hex

/-- The digit of a value below 16. -/
def digit (n : Nat) : Char :=
  if n < 10 then Char.ofNat (48 + n) else Char.ofNat (87 + n)

/-- The value of a digit, in either case. -/
def value (c : Char) : Option Nat :=
  if '0' ≤ c ∧ c ≤ '9' then some (c.toNat - 48)
  else if 'a' ≤ c ∧ c ≤ 'f' then some (c.toNat - 87)
  else if 'A' ≤ c ∧ c ≤ 'F' then some (c.toNat - 55)
  else none

/-- The two digits of a byte, the high one first. -/
def encodeByte (b : UInt8) : List Char := [digit (b.toNat / 16), digit (b.toNat % 16)]

/-- Lower-case digits, two for each byte. -/
def encode (bytes : List UInt8) : String := String.ofList (bytes.flatMap encodeByte)

/-- The bytes of an even number of digits. -/
def decodeDigits : List Char → Except String (List UInt8)
  | [] => .ok []
  | [_] => .error "Odd number of digits"
  | hi :: lo :: rest =>
    match value hi, value lo with
    | some h, some l => (decodeDigits rest).map (UInt8.ofNat (16 * h + l) :: ·)
    | _, _ => .error "Invalid character"

/-- The bytes that a text stands for. -/
def decode (s : String) : Except String (List UInt8) := decodeDigits s.toList

theorem value_digit {n : Nat} (h : n < 16) : value (digit n) = some n := by
  revert n
  decide

theorem decodeDigits_encodeByte (b : UInt8) (rest : List Char) :
    decodeDigits (encodeByte b ++ rest) = (decodeDigits rest).map (b :: ·) := by
  have hlt := b.toNat_lt
  have hhi : value (digit (b.toNat / 16)) = some (b.toNat / 16) := value_digit (by omega)
  have hlo : value (digit (b.toNat % 16)) = some (b.toNat % 16) := value_digit (by omega)
  have hb : UInt8.ofNat (16 * (b.toNat / 16) + b.toNat % 16) = b := by
    rw [Nat.div_add_mod, UInt8.ofNat_toNat]
  simp only [encodeByte, List.cons_append, List.nil_append, decodeDigits, hhi, hlo, hb]

theorem decode_encode (bytes : List UInt8) : decode (encode bytes) = .ok bytes := by
  rw [decode, encode, String.toList_ofList]
  induction bytes with
  | nil => rfl
  | cons b bytes ih =>
    rw [List.flatMap_cons, decodeDigits_encodeByte, ih]
    rfl

example : encode [0xab, 1] = "ab01" ∧ decode "AB01" = .ok [0xab, 1] := by decide

end Hex
