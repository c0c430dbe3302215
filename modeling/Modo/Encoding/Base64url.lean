import Mathlib.Tactic.IntervalCases
import Modo.Lib.Ascii
import Modo.Lib.BitCode
import Modo.Lib.Text

/-!
# Base64url text

`base64url::encode` writes the bits of its bytes in groups of six, without padding;
`decode` reads them back in groups of eight and drops what is left over.  Both keep the
bits that are yet to be written in a 32-bit buffer, whose upper bits are shifted out.

Both are the loops of a `BitCode`, `encode_eq` and `decode_eq`.  `decode_encode` is the round
trip, `decode_isOk_iff` says which texts are accepted, and `decode_encode_unpadded` which of
them are written back as they were.
-/

namespace Modo.Base64url

/-- `ALPHABET`. -/
def alphabet : List Char :=
  ['A', 'B', 'C', 'D', 'E', 'F', 'G', 'H', 'I', 'J', 'K', 'L', 'M', 'N', 'O', 'P',
   'Q', 'R', 'S', 'T', 'U', 'V', 'W', 'X', 'Y', 'Z', 'a', 'b', 'c', 'd', 'e', 'f',
   'g', 'h', 'i', 'j', 'k', 'l', 'm', 'n', 'o', 'p', 'q', 'r', 's', 't', 'u', 'v',
   'w', 'x', 'y', 'z', '0', '1', '2', '3', '4', '5', '6', '7', '8', '9', '-', '_']

/-- The character of six bits. -/
def digit (index : ℕ) : Char := alphabet.getD index 'A'

/-- Shift `value` into the buffer from the right. -/
def shiftIn (bits buffer value : ℕ) : ℕ := (buffer <<< bits ||| value) % 2 ^ 32

/-- The `while` loop of `encode`: write groups of six as long as there are any. -/
def writeGroups (buffer : ℕ) : ℕ → List Char × ℕ
  | left + 6 =>
      let (chars, rest) := writeGroups buffer left
      (digit (buffer >>> left &&& 0x3f) :: chars, rest)
  | left => ([], left)

/-- The loop of `encode`. -/
def encodeLoop (buffer bitsLeft : ℕ) : List UInt8 → List Char
  | [] => if 0 < bitsLeft then [digit (buffer <<< (6 - bitsLeft) &&& 0x3f)] else []
  | byte :: rest =>
      let buffer := shiftIn 8 buffer byte.toNat
      let (chars, bitsLeft) := writeGroups buffer (bitsLeft + 8)
      chars ++ encodeLoop buffer bitsLeft rest

def encode (bytes : List UInt8) : List Char := encodeLoop 0 0 bytes

/-- `decode_char`. -/
def decodeChar (ch : Char) : Option ℕ :=
  if 'A' ≤ ch ∧ ch ≤ 'Z' then some (ch.toNat - 'A'.toNat)
  else if 'a' ≤ ch ∧ ch ≤ 'z' then some (ch.toNat - 'a'.toNat + 26)
  else if '0' ≤ ch ∧ ch ≤ '9' then some (ch.toNat - '0'.toNat + 52)
  else if ch = '-' then some 62
  else if ch = '_' then some 63
  else none

/-- The loop of `decode`; the error is the character that is not in the alphabet. -/
def decodeLoop (buffer bitsLeft : ℕ) : List Char → Except Char (List UInt8)
  | [] => .ok []
  | ch :: rest =>
      match decodeChar ch with
      | none => .error ch
      | some value =>
          let buffer := shiftIn 6 buffer value
          let bitsLeft := bitsLeft + 6
          if 8 ≤ bitsLeft then
            (decodeLoop buffer (bitsLeft - 8) rest).map fun bytes =>
              UInt8.ofNat (buffer >>> (bitsLeft - 8)) :: bytes
          else decodeLoop buffer bitsLeft rest

def decode (encoded : List Char) : Except Char (List UInt8) := decodeLoop 0 0 encoded

/-! ## The code -/

theorem decodeChar_digit : ∀ index < 64, decodeChar (digit index) = some index := by decide

/-- Only the characters of the alphabet have a value. -/
theorem digit_of_decodeChar {ch : Char} {value : ℕ} (hch : decodeChar ch = some value) :
    value < 64 ∧ digit value = ch := by
  have hascii : ch.toNat < 128 := by
    unfold decodeChar at hch
    split_ifs at hch with hcapital hletter hnumber hdash hline
    · exact Ascii.lt_of_le hcapital.2 (by decide)
    · exact Ascii.lt_of_le hletter.2 (by decide)
    · exact Ascii.lt_of_le hnumber.2 (by decide)
    · subst hdash
      decide
    · subst hline
      decide
  have hpoints : ∀ n < 128, ∀ value ∈ decodeChar (Char.ofNat n),
      value < 64 ∧ digit value = Char.ofNat n := by
    decide
  exact Ascii.forall_of_lt (p := fun ch => ∀ value ∈ decodeChar ch, value < 64 ∧ digit value = ch)
    128 hpoints hascii value hch

/-- Groups of six bits in a buffer of 32 bits. -/
def code : BitCode where
  width := 6
  word := 32
  digit := digit
  fold := id
  value := decodeChar
  width_pos := by decide
  width_le := by decide
  word_le := by decide
  value_digit := decodeChar_digit
  fold_digit := fun _ _ => rfl
  digit_of_value := digit_of_decodeChar

theorem writeGroups_eq (buffer left : ℕ) :
    writeGroups buffer left = code.writeGroups buffer left := by
  induction left using Nat.strong_induction_on with
  | h left ih =>
      rw [BitCode.writeGroups]
      split_ifs with hfull
      · obtain ⟨left, rfl⟩ := Nat.exists_eq_add_of_le' hfull
        have hrest := ih left (by have : code.width = 6 := rfl; omega)
        have hleft : left + code.width - code.width = left := Nat.add_sub_cancel ..
        rw [hleft, ← hrest]
        rfl
      · have hsmall : left < 6 := not_le.mp hfull
        interval_cases left <;> rfl

theorem encodeLoop_eq (buffer bitsLeft : ℕ) (bytes : List UInt8) :
    encodeLoop buffer bitsLeft bytes = code.encodeLoop buffer bitsLeft bytes := by
  induction bytes generalizing buffer bitsLeft with
  | nil => rfl
  | cons byte rest ih =>
      rw [encodeLoop, BitCode.encodeLoop, writeGroups_eq]
      simp only [ih]
      rfl

theorem encode_eq (bytes : List UInt8) : encode bytes = code.encode bytes := by
  rw [encode, BitCode.encode_eq, encodeLoop_eq]

theorem decodeLoop_eq (buffer bitsLeft : ℕ) (encoded : List Char) :
    decodeLoop buffer bitsLeft encoded = code.decodeLoop buffer bitsLeft encoded := by
  induction encoded generalizing buffer bitsLeft with
  | nil => rfl
  | cons ch rest ih =>
      rw [decodeLoop, BitCode.decodeLoop]
      simp only [ih]
      rfl

theorem decode_eq (encoded : List Char) : decode encoded = code.decode encoded := by
  rw [decode, BitCode.decode_eq, decodeLoop_eq]

/-! ## Which texts are accepted -/

/-- The characters of the alphabet. -/
def isDigit (ch : Char) : Bool := (decodeChar ch).isSome

/-- **The accepted texts** are those of the alphabet. -/
theorem decode_isOk_iff (encoded : List Char) :
    (decode encoded).isOk = true ↔ ∀ ch ∈ encoded, isDigit ch = true := by
  rw [decode_eq, BitCode.decode_isOk_iff]
  rfl

theorem isDigit_iff (ch : Char) : isDigit ch = true ↔ ch ∈ alphabet := by
  rw [isDigit, Option.isSome_iff_exists]
  constructor
  · intro ⟨value, hvalue⟩
    obtain ⟨hlt, rfl⟩ := digit_of_decodeChar hvalue
    have hall : ∀ index < 64, digit index ∈ alphabet := by decide
    exact hall value hlt
  · intro hmem
    have hall : ∀ ch ∈ alphabet, (decodeChar ch).isSome = true := by decide
    exact Option.isSome_iff_exists.mp (hall ch hmem)

/-! ## The round trips -/

/-- **The round trip.** -/
theorem decode_encode (bytes : List UInt8) : decode (encode bytes) = .ok bytes := by
  rw [decode_eq, encode_eq, BitCode.decode_encode]

/-- The bits of a text that complete no byte. -/
def unusedBits (encoded : List Char) : List Bool := code.unusedBits encoded

/-- **Base64url.**  What was encoded is decoded; the accepted texts are those of the alphabet;
and an accepted text is written back as it was when its last group has more than one
character and its unused bits are zeros. -/
theorem decode_encode_unpadded :
    (∀ bytes, decode (encode bytes) = .ok bytes) ∧
    (∀ encoded, (decode encoded).isOk = true ↔ ∀ ch ∈ encoded, ch ∈ alphabet) ∧
    (∀ encoded, (decode encoded).map encode = .ok encoded ↔
      (decode encoded).isOk = true ∧ encoded.length % 4 ≠ 1 ∧
        ∀ bit ∈ unusedBits encoded, bit = false) := by
  refine ⟨decode_encode, fun encoded => ?_, fun encoded => ?_⟩
  · rw [decode_isOk_iff]
    exact forall₂_congr fun ch _ => isDigit_iff ch
  · cases hok : decode encoded with
    | error wrong => simp [Except.map, Except.isOk, Except.toBool]
    | ok bytes =>
        rw [decode_eq] at hok
        have hsame := BitCode.encode_eq_iff hok
        have hlength : code.width * encoded.length % 8 < code.width ↔ encoded.length % 4 ≠ 1 := by
          have hwidth : code.width = 6 := rfl
          rw [hwidth]
          omega
        rw [hlength, ← encode_eq, show encoded.map code.fold = encoded from List.map_id _] at hsame
        simp only [Except.map, Except.ok.injEq, Except.isOk, Except.toBool, true_and]
        exact hsame

end Modo.Base64url
