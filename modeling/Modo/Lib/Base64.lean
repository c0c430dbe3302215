import Mathlib.Data.List.Basic

/-!
# Base64 text

The standard alphabet with padding: three bytes are four characters, and a last group of
one or two bytes is filled up with `=`.  Only canonical texts are read, so that `encode` and
`decode` are inverse to each other (`decode_encode`, `eq_encode_of_decode`).
-/

namespace Base64

def alphabet : List Char :=
  ['A', 'B', 'C', 'D', 'E', 'F', 'G', 'H', 'I', 'J', 'K', 'L', 'M', 'N', 'O', 'P',
   'Q', 'R', 'S', 'T', 'U', 'V', 'W', 'X', 'Y', 'Z', 'a', 'b', 'c', 'd', 'e', 'f',
   'g', 'h', 'i', 'j', 'k', 'l', 'm', 'n', 'o', 'p', 'q', 'r', 's', 't', 'u', 'v',
   'w', 'x', 'y', 'z', '0', '1', '2', '3', '4', '5', '6', '7', '8', '9', '+', '/']

/-- The character of six bits. -/
def digit (n : ℕ) : Char := alphabet.getD n 'A'

/-- The six bits of a character. -/
def digitValue (c : Char) : Option ℕ := alphabet.idxOf? c

def encode : List UInt8 → List Char
  | [] => []
  | [a] => [digit (a.toNat / 4), digit (a.toNat % 4 * 16), '=', '=']
  | [a, b] =>
      [digit (a.toNat / 4), digit (a.toNat % 4 * 16 + b.toNat / 16),
        digit (b.toNat % 16 * 4), '=']
  | a :: b :: c :: rest =>
      digit (a.toNat / 4) :: digit (a.toNat % 4 * 16 + b.toNat / 16) ::
        digit (b.toNat % 16 * 4 + c.toNat / 64) :: digit (c.toNat % 64) :: encode rest

/-- A last group of one byte, whose unused bits are zero. -/
def decodeOne (p q : Char) : Option (List UInt8) :=
  match digitValue p, digitValue q with
  | some x, some y => if y % 16 = 0 then some [UInt8.ofNat (x * 4 + y / 16)] else none
  | _, _ => none

/-- A last group of two bytes, whose unused bits are zero. -/
def decodeTwo (p q r : Char) : Option (List UInt8) :=
  match digitValue p, digitValue q, digitValue r with
  | some x, some y, some z =>
      if z % 4 = 0 then
        some [UInt8.ofNat (x * 4 + y / 16), UInt8.ofNat (y % 16 * 16 + z / 4)]
      else none
  | _, _, _ => none

/-- A group of three bytes. -/
def decodeThree (p q r s : Char) : Option (List UInt8) :=
  match digitValue p, digitValue q, digitValue r, digitValue s with
  | some x, some y, some z, some w =>
      some [UInt8.ofNat (x * 4 + y / 16), UInt8.ofNat (y % 16 * 16 + z / 4),
        UInt8.ofNat (z % 4 * 64 + w)]
  | _, _, _, _ => none

def decode : List Char → Option (List UInt8)
  | [] => some []
  | p :: q :: r :: s :: rest =>
      if rest = [] ∧ s = '=' then if r = '=' then decodeOne p q else decodeTwo p q r
      else (decodeThree p q r s).bind fun group => (decode rest).map fun bytes => group ++ bytes
  | _ => none

/-! ## Digits -/

theorem digitValue_digit {n : ℕ} (hn : n < 64) : digitValue (digit n) = some n := by
  have hall : ∀ n < 64, digitValue (digit n) = some n := by decide +kernel
  exact hall n hn

theorem digitValue_eq_some {c : Char} {n : ℕ} (hvalue : digitValue c = some n) :
    n < 64 ∧ digit n = c := by
  obtain ⟨hlt, hget, -⟩ := List.idxOf?_eq_some_iff.mp hvalue
  refine ⟨hlt, ?_⟩
  rw [digit, List.getD_eq_getElem?_getD, List.getElem?_eq_getElem hlt]
  exact hget

theorem digitValue_lt {c : Char} {n : ℕ} (hvalue : digitValue c = some n) : n < 64 :=
  (digitValue_eq_some hvalue).1

theorem digit_of_digitValue {c : Char} {n : ℕ} (hvalue : digitValue c = some n) : digit n = c :=
  (digitValue_eq_some hvalue).2

theorem digit_ne_pad {n : ℕ} (hn : n < 64) : digit n ≠ '=' := by
  have hall : ∀ n < 64, digit n ≠ '=' := by decide
  exact hall n hn

/-! ## The round trips -/

/-- A byte that is put together again. -/
theorem ofNat_eq {n : ℕ} (byte : UInt8) (heq : n = byte.toNat) : UInt8.ofNat n = byte := by
  rw [heq, UInt8.ofNat_toNat]

theorem toNat_ofNat_of_lt {n : ℕ} (hn : n < 256) : (UInt8.ofNat n).toNat = n := by
  rw [UInt8.toNat_ofNat']
  exact Nat.mod_eq_of_lt hn

/-- What was encoded is decoded. -/
theorem decode_encode (bytes : List UInt8) : decode (encode bytes) = some bytes := by
  induction bytes using encode.induct with
  | case1 => rfl
  | case2 a =>
      have ha := a.toNat_lt
      rw [encode, decode, if_pos ⟨rfl, rfl⟩, if_pos rfl, decodeOne,
        digitValue_digit (by omega), digitValue_digit (by omega)]
      dsimp only
      rw [if_pos (by omega), ofNat_eq a (by omega)]
  | case3 a b =>
      have ha := a.toNat_lt
      have hb := b.toNat_lt
      rw [encode, decode, if_pos ⟨rfl, rfl⟩, if_neg (digit_ne_pad (by omega)), decodeTwo,
        digitValue_digit (by omega), digitValue_digit (by omega), digitValue_digit (by omega)]
      dsimp only
      rw [if_pos (by omega), ofNat_eq a (by omega), ofNat_eq b (by omega)]
  | case4 a b c rest ih =>
      have ha := a.toNat_lt
      have hb := b.toNat_lt
      have hc := c.toNat_lt
      rw [encode, decode, if_neg fun h => digit_ne_pad (by omega) h.2, decodeThree,
        digitValue_digit (by omega), digitValue_digit (by omega), digitValue_digit (by omega),
        digitValue_digit (by omega)]
      dsimp only
      rw [Option.bind_some, ih, Option.map_some, ofNat_eq a (by omega),
        ofNat_eq b (by omega), ofNat_eq c (by omega)]
      rfl

theorem encode_decodeOne {p q : Char} {bytes : List UInt8}
    (hdecode : decodeOne p q = some bytes) : encode bytes = [p, q, '=', '='] := by
  unfold decodeOne at hdecode
  split at hdecode
  · rename_i x y hx hy
    have hxlt := digitValue_lt hx
    have hylt := digitValue_lt hy
    split at hdecode
    · obtain rfl := Option.some.inj hdecode
      have hbyte := toNat_ofNat_of_lt (show x * 4 + y / 16 < 256 by omega)
      rw [encode, hbyte, show (x * 4 + y / 16) / 4 = x by omega,
        show (x * 4 + y / 16) % 4 * 16 = y by omega, digit_of_digitValue hx,
        digit_of_digitValue hy]
    · cases hdecode
  · cases hdecode

theorem encode_decodeTwo {p q r : Char} {bytes : List UInt8}
    (hdecode : decodeTwo p q r = some bytes) : encode bytes = [p, q, r, '='] := by
  unfold decodeTwo at hdecode
  split at hdecode
  · rename_i x y z hx hy hz
    have hxlt := digitValue_lt hx
    have hylt := digitValue_lt hy
    have hzlt := digitValue_lt hz
    split at hdecode
    · obtain rfl := Option.some.inj hdecode
      have hfirst := toNat_ofNat_of_lt (show x * 4 + y / 16 < 256 by omega)
      have hsecond := toNat_ofNat_of_lt (show y % 16 * 16 + z / 4 < 256 by omega)
      rw [encode, hfirst, hsecond, show (x * 4 + y / 16) / 4 = x by omega,
        show (x * 4 + y / 16) % 4 * 16 + (y % 16 * 16 + z / 4) / 16 = y by omega,
        show (y % 16 * 16 + z / 4) % 16 * 4 = z by omega, digit_of_digitValue hx,
        digit_of_digitValue hy, digit_of_digitValue hz]
    · cases hdecode
  · cases hdecode

theorem encode_decodeThree {p q r s : Char} {group rest : List UInt8}
    (hdecode : decodeThree p q r s = some group) :
    encode (group ++ rest) = p :: q :: r :: s :: encode rest := by
  unfold decodeThree at hdecode
  split at hdecode
  · rename_i x y z w hx hy hz hw
    have hxlt := digitValue_lt hx
    have hylt := digitValue_lt hy
    have hzlt := digitValue_lt hz
    have hwlt := digitValue_lt hw
    obtain rfl := Option.some.inj hdecode
    have hfirst := toNat_ofNat_of_lt (show x * 4 + y / 16 < 256 by omega)
    have hsecond := toNat_ofNat_of_lt (show y % 16 * 16 + z / 4 < 256 by omega)
    have hthird := toNat_ofNat_of_lt (show z % 4 * 64 + w < 256 by omega)
    rw [List.cons_append, List.cons_append, List.cons_append, List.nil_append, encode, hfirst,
      hsecond, hthird, show (x * 4 + y / 16) / 4 = x by omega,
      show (x * 4 + y / 16) % 4 * 16 + (y % 16 * 16 + z / 4) / 16 = y by omega,
      show (y % 16 * 16 + z / 4) % 16 * 4 + (z % 4 * 64 + w) / 64 = z by omega,
      show (z % 4 * 64 + w) % 64 = w by omega, digit_of_digitValue hx, digit_of_digitValue hy,
      digit_of_digitValue hz, digit_of_digitValue hw]
  · cases hdecode

/-- Only what was encoded is decoded. -/
theorem eq_encode_of_decode {text : List Char} {bytes : List UInt8}
    (hdecode : decode text = some bytes) : text = encode bytes := by
  fun_induction decode text generalizing bytes with
  | case1 =>
      obtain rfl := Option.some.inj hdecode
      rfl
  | case2 p q s rest hlast =>
      obtain ⟨rfl, rfl⟩ := hlast
      rw [encode_decodeOne hdecode]
  | case3 p q r s rest hlast hpad =>
      obtain ⟨rfl, rfl⟩ := hlast
      rw [encode_decodeTwo hdecode]
  | case4 p q r s rest hlast ih =>
      obtain ⟨group, hgroup, hrest⟩ := Option.bind_eq_some_iff.mp hdecode
      obtain ⟨others, hothers, rfl⟩ := Option.map_eq_some_iff.mp hrest
      rw [encode_decodeThree hgroup, ← ih hothers]
  | case5 => cases hdecode

/-- The characters of an encoded text. -/
theorem mem_encode {bytes : List UInt8} {c : Char} (hc : c ∈ encode bytes) :
    c ∈ alphabet ∨ c = '=' := by
  have hdigit : ∀ n, digit n ∈ alphabet := by
    intro n
    rw [digit, List.getD_eq_getElem?_getD]
    cases hget : alphabet[n]? with
    | none => decide
    | some d => exact List.mem_of_getElem? hget
  induction bytes using encode.induct with
  | case1 => cases hc
  | case2 a =>
      simp only [encode, List.mem_cons, List.not_mem_nil, or_false] at hc
      rcases hc with rfl | rfl | hc | hc
      · exact .inl (hdigit _)
      · exact .inl (hdigit _)
      · exact .inr hc
      · exact .inr hc
  | case3 a b =>
      simp only [encode, List.mem_cons, List.not_mem_nil, or_false] at hc
      rcases hc with rfl | rfl | rfl | hc
      · exact .inl (hdigit _)
      · exact .inl (hdigit _)
      · exact .inl (hdigit _)
      · exact .inr hc
  | case4 a b d rest ih =>
      simp only [encode, List.mem_cons] at hc
      rcases hc with rfl | rfl | rfl | rfl | hc
      · exact .inl (hdigit _)
      · exact .inl (hdigit _)
      · exact .inl (hdigit _)
      · exact .inl (hdigit _)
      · exact ih hc

end Base64
