import Modo.Lib.Ascii
import Modo.Lib.BitCode
import Modo.Lib.Text

/-!
# Base32 text

`base32::encode` writes the bits of its bytes in groups of five, without padding, and keeps
what is yet to be written in a 64-bit buffer; `decode` reads letters of either case.

`decode_encode_canonical` is the round trip, says which texts are accepted, and which of them
are written back in capital letters.
-/

namespace Modo.Base32

/-- `ALPHABET`. -/
def alphabet : List Char :=
  ['A', 'B', 'C', 'D', 'E', 'F', 'G', 'H', 'I', 'J', 'K', 'L', 'M', 'N', 'O', 'P',
   'Q', 'R', 'S', 'T', 'U', 'V', 'W', 'X', 'Y', 'Z', '2', '3', '4', '5', '6', '7']

/-- The character of five bits. -/
def digit (index : ℕ) : Char := alphabet.getD index 'A'

/-- `decode_char`. -/
def decodeChar (ch : Char) : Option ℕ :=
  if 'A' ≤ ch ∧ ch ≤ 'Z' then some (ch.toNat - 'A'.toNat)
  else if '2' ≤ ch ∧ ch ≤ '7' then some (ch.toNat - '2'.toNat + 26)
  else none

/-! ## The alphabet -/

theorem decodeChar_digit : ∀ index < 32, decodeChar (digit index) = some index := by
  decide

theorem toUpper_digit : ∀ index < 32, (digit index).toUpper = digit index := by decide

/-- Only the characters of the alphabet have a value. -/
theorem digit_of_decodeChar {ch : Char} {value : ℕ} (hch : decodeChar ch = some value) :
    value < 32 ∧ digit value = ch := by
  have hascii : ch.toNat < 128 := by
    unfold decodeChar at hch
    split_ifs at hch with hletter hnumber
    · exact Ascii.lt_of_le hletter.2 (by decide)
    · exact Ascii.lt_of_le hnumber.2 (by decide)
  have hpoints : ∀ n < 128, ∀ value ∈ decodeChar (Char.ofNat n),
      value < 32 ∧ digit value = Char.ofNat n := by
    decide
  exact Ascii.forall_of_lt (p := fun ch => ∀ value ∈ decodeChar ch, value < 32 ∧ digit value = ch)
    128 hpoints hascii value hch

/-! ## The code -/

/-- Groups of five bits in a buffer of 64 bits, read in either case. -/
def code : BitCode where
  width := 5
  word := 64
  digit := digit
  fold := Char.toUpper
  value := decodeChar
  width_pos := by decide
  width_le := by decide
  word_le := by decide
  value_digit := decodeChar_digit
  fold_digit := toUpper_digit
  digit_of_value := digit_of_decodeChar

/-- `base32::encode`. -/
def encode (bytes : List UInt8) : List Char := code.encode bytes

/-- `base32::decode`; the error is the character that is not in the alphabet. -/
def decode (encoded : List Char) : Except Char (List UInt8) := code.decode encoded

/-- The bits of a text that complete no byte. -/
def unusedBits (encoded : List Char) : List Bool := code.unusedBits encoded

/-- The characters of the alphabet, in either case. -/
def isDigit (ch : Char) : Prop := ch ∈ alphabet ∨ ∃ upper ∈ alphabet, ch = upper.toLower

theorem isSome_decodeChar_iff (ch : Char) : (decodeChar ch.toUpper).isSome = true ↔ isDigit ch := by
  constructor
  · intro hsome
    have hascii : ch.toNat < 128 := by
      by_contra hge
      rw [Ascii.toUpper_of_le (not_lt.mp hge)] at hsome
      obtain ⟨value, hvalue⟩ := Option.isSome_iff_exists.mp hsome
      obtain ⟨hlt, rfl⟩ := digit_of_decodeChar hvalue
      have hall : ∀ index < 32, (digit index).toNat < 128 := by decide
      exact hge (hall value hlt)
    have hpoints : ∀ n < 128, (decodeChar (Char.ofNat n).toUpper).isSome = true →
        Char.ofNat n ∈ alphabet ∨ Char.ofNat n ∈ alphabet.map Char.toLower := by
      decide +kernel
    rcases Ascii.forall_of_lt (p := fun ch => (decodeChar ch.toUpper).isSome = true →
      ch ∈ alphabet ∨ ch ∈ alphabet.map Char.toLower) 128 hpoints hascii hsome with hmem | hmem
    · exact .inl hmem
    · obtain ⟨upper, hupper, rfl⟩ := List.mem_map.mp hmem
      exact .inr ⟨upper, hupper, rfl⟩
  · have hupper : ∀ upper ∈ alphabet, (decodeChar upper.toUpper).isSome = true ∧
        (decodeChar upper.toLower.toUpper).isSome = true := by
      decide
    rintro (hmem | ⟨upper, hmem, rfl⟩)
    · exact (hupper ch hmem).1
    · exact (hupper upper hmem).2

theorem decode_isOk_iff (encoded : List Char) :
    (decode encoded).isOk = true ↔ ∀ ch ∈ encoded, isDigit ch := by
  rw [decode, BitCode.decode_isOk_iff]
  exact forall₂_congr fun ch _ => isSome_decodeChar_iff ch

theorem length_encode (bytes : List UInt8) :
    (encode bytes).length = (8 * bytes.length + 4) / 5 := BitCode.length_encode bytes

/-- The lengths that are written. -/
theorem exists_length_encode_iff (n : ℕ) :
    (∃ bytes, (encode bytes).length = n) ↔ 5 * n % 8 < 5 := by
  constructor
  · intro ⟨bytes, hbytes⟩
    rw [length_encode] at hbytes
    have hbits : 5 * n = 8 * bytes.length + (5 * n - 8 * bytes.length) := by omega
    rw [hbits, Nat.mul_add_mod, Nat.mod_eq_of_lt (by omega)]
    omega
  · intro hn
    refine ⟨List.replicate (5 * n / 8) 0, ?_⟩
    rw [length_encode, List.length_replicate]
    omega

/-- **Base32.**  What was encoded is decoded; the accepted texts are those of the alphabet; and
the texts written back in capital letters are those of a length that is written, with zeros
for unused bits. -/
theorem decode_encode_canonical :
    (∀ bytes, decode (encode bytes) = .ok bytes) ∧
    (∀ encoded, (decode encoded).isOk = true ↔ ∀ ch ∈ encoded, isDigit ch) ∧
    (∀ encoded, (decode encoded).map encode = .ok (encoded.map Char.toUpper) ↔
      (∀ ch ∈ encoded, isDigit ch) ∧ (∃ bytes, (encode bytes).length = encoded.length) ∧
        ∀ bit ∈ unusedBits encoded, bit = false) := by
  refine ⟨BitCode.decode_encode, decode_isOk_iff, fun encoded => ?_⟩
  rw [exists_length_encode_iff, ← decode_isOk_iff]
  cases hok : decode encoded with
  | error wrong => simp [Except.map, Except.isOk, Except.toBool]
  | ok bytes =>
      have hsame := BitCode.encode_eq_iff (C := code) hok
      simp only [Except.map, Except.ok.injEq, Except.isOk, Except.toBool, true_and]
      exact hsame

end Modo.Base32
