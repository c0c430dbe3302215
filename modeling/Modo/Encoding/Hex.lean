import Mathlib.Data.List.Basic

/-!
# Hexadecimal text

`encoding::hex::encode` writes two lowercase digits a byte.  `hexDigit` and
`decodePairs` are the reader of `SessionToken::from_hex`, which takes digits of
either case.  `decodePairs_encode` is the round trip.
-/

namespace Modo.Hex

/-- `HEX_TABLE`. -/
def table : List Char :=
  ['0', '1', '2', '3', '4', '5', '6', '7', '8', '9', 'a', 'b', 'c', 'd', 'e', 'f']

/-- The digit of a half byte. -/
def digit (n : ℕ) : Char := table.getD n '0'

/-- `hex::encode`. -/
def encode : List UInt8 → List Char
  | [] => []
  | byte :: rest => digit (byte.toNat / 16) :: digit (byte.toNat % 16) :: encode rest

/-- `hex_digit`. -/
def hexDigit (c : Char) : Option ℕ :=
  if '0' ≤ c ∧ c ≤ '9' then some (c.toNat - '0'.toNat)
  else if 'a' ≤ c ∧ c ≤ 'f' then some (c.toNat - 'a'.toNat + 10)
  else if 'A' ≤ c ∧ c ≤ 'F' then some (c.toNat - 'A'.toNat + 10)
  else none

/-- The bytes of a text, read two digits at a time. -/
def decodePairs : List Char → Option (List UInt8)
  | [] => some []
  | [_] => none
  | hi :: lo :: rest => do
      let high ← hexDigit hi
      let low ← hexDigit lo
      let bytes ← decodePairs rest
      some (UInt8.ofNat (high * 16 + low) :: bytes)

theorem hexDigit_digit : ∀ n < 16, hexDigit (digit n) = some n := by decide

theorem decodePairs_encode (bytes : List UInt8) : decodePairs (encode bytes) = some bytes := by
  induction bytes with
  | nil => rfl
  | cons byte rest ih =>
      have hbyte : byte.toNat < 256 := byte.toNat_lt
      have hhigh := hexDigit_digit (byte.toNat / 16) (by omega)
      have hlow := hexDigit_digit (byte.toNat % 16) (by omega)
      have hsum : byte.toNat / 16 * 16 + byte.toNat % 16 = byte.toNat := by omega
      simp only [encode, decodePairs, hhigh, hlow, ih, Option.bind_eq_bind, Option.bind_some, hsum,
        UInt8.ofNat_toNat]

theorem length_encode (bytes : List UInt8) : (encode bytes).length = 2 * bytes.length := by
  induction bytes with
  | nil => rfl
  | cons byte rest ih =>
      simp only [encode, List.length_cons, ih]
      omega

/-- Two digits a byte. -/
theorem length_of_decodePairs {text : List Char} {bytes : List UInt8}
    (hdecode : decodePairs text = some bytes) : text.length = 2 * bytes.length := by
  induction text using decodePairs.induct generalizing bytes with
  | case1 =>
      rw [decodePairs, Option.some.injEq] at hdecode
      subst hdecode
      rfl
  | case2 c => cases hdecode
  | case3 hi lo rest ih =>
      simp only [decodePairs, Option.bind_eq_bind, Option.bind_eq_some_iff,
        Option.some.injEq] at hdecode
      obtain ⟨high, -, low, -, tail, htail, rfl⟩ := hdecode
      have := ih htail
      simp only [List.length_cons]
      omega

end Modo.Hex
