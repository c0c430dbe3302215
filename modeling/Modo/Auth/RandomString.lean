import Modo.Lib.Sampling
import Modo.Lib.Utf8

/-!
# Random strings

`random_string` draws bytes and refuses those from the largest multiple of the alphabet's length on,
so that the remainder of an accepted byte is as likely to be one position as another.

`randomString_unbiased` counts the bytes and the sequences of bytes behind each string.
-/

namespace Modo.Auth

open Sampling (window)

/-- `bias_limit`, for an alphabet of this length. -/
def biasLimit (n : ℕ) : ℕ := 256 / n * n

def isAccepted (alphabet : List UInt8) (byte : UInt8) : Bool :=
  decide (byte.toNat < biasLimit alphabet.length)

/-- `alphabet[b % n] as char`. -/
def charOf (alphabet : List UInt8) (byte : UInt8) : Char :=
  Char.ofNat (alphabet.getD (byte.toNat % alphabet.length) 0).toNat

/-- The body of the loop. -/
def pushByte (alphabet : List UInt8) (out : List Char) (byte : UInt8) : List Char :=
  if isAccepted alphabet byte then out ++ [charOf alphabet byte] else out

/-- The loop of `random_string` from a position of the stream on, or nothing if it still runs after
these rounds. -/
def randomStringLoop (alphabet : List UInt8) (len : ℕ) (stream : ℕ → UInt8) :
    ℕ → ℕ → List Char → Option (List Char)
  | 0, _, out => if Utf8.byteLength out < len then none else some out
  | rounds + 1, position, out =>
      if Utf8.byteLength out < len then
        randomStringLoop alphabet len stream rounds (position + 1)
          (pushByte alphabet out (stream position))
      else some out

/-- `random_string`; the error is the message of its panic. -/
def randomString (alphabet : List UInt8) (len : ℕ) (stream : ℕ → UInt8) (rounds : ℕ) :
    Except String (Option (List Char)) :=
  if alphabet.isEmpty then .error "alphabet must not be empty"
  else .ok (randomStringLoop alphabet len stream rounds 0 [])

/-- Distinct ASCII bytes. -/
structure Alphabet where
  bytes : List UInt8
  ne_nil : bytes ≠ []
  nodup : bytes.Nodup
  isAscii : ∀ byte ∈ bytes, byte.toNat < 128

namespace Alphabet

variable (alphabet : Alphabet)

def size : ℕ := alphabet.bytes.length

/-- The characters of the alphabet. -/
def chars : List Char := alphabet.bytes.map fun byte => Char.ofNat byte.toNat

/-- The characters of the accepted ones of these bytes. -/
def sampled (bytes : List UInt8) : List Char :=
  (bytes.filter (isAccepted alphabet.bytes)).map (charOf alphabet.bytes)

theorem size_pos : 0 < alphabet.size := List.length_pos_of_ne_nil alphabet.ne_nil

theorem toNat_ofNat_toNat {byte : UInt8} (hascii : byte.toNat < 128) :
    (Char.ofNat byte.toNat).toNat = byte.toNat := by
  rw [Char.ofNat, dif_pos (Or.inl (by omega))]
  rfl

theorem length_chars : alphabet.chars.length = alphabet.size := List.length_map ..

theorem nodup_chars : alphabet.chars.Nodup := by
  refine List.Nodup.map_on ?_ alphabet.nodup
  intro byte hbyte other hother heq
  have hsame := congrArg Char.toNat heq
  rw [toNat_ofNat_toNat (alphabet.isAscii byte hbyte),
    toNat_ofNat_toNat (alphabet.isAscii other hother)] at hsame
  exact UInt8.toNat_inj.mp hsame

/-- There are no more than 128 distinct ASCII bytes. -/
theorem size_le : alphabet.size ≤ 128 := by
  have hnodup : (alphabet.bytes.map UInt8.toNat).Nodup :=
    alphabet.nodup.map fun _ _ heq => UInt8.toNat_inj.mp heq
  have hsubset : alphabet.bytes.map UInt8.toNat ⊆ List.range 128 := by
    intro n hn
    obtain ⟨byte, hbyte, rfl⟩ := List.mem_map.mp hn
    exact List.mem_range.mpr (alphabet.isAscii byte hbyte)
  have hlength := (List.subperm_of_subset hnodup hsubset).length_le
  rwa [List.length_map, List.length_range] at hlength

theorem lt_length_chars (n : ℕ) : n % alphabet.size < alphabet.chars.length := by
  rw [length_chars]
  exact Nat.mod_lt n alphabet.size_pos

theorem charOf_eq (byte : UInt8) : charOf alphabet.bytes byte =
    alphabet.chars.get ⟨byte.toNat % alphabet.size, alphabet.lt_length_chars _⟩ := by
  have hbound : byte.toNat % alphabet.bytes.length < alphabet.bytes.length :=
    Nat.mod_lt _ alphabet.size_pos
  simp only [charOf, chars, size, List.get_eq_getElem, List.getElem_map]
  rw [List.getD_eq_getElem?_getD, List.getElem?_eq_getElem hbound, Option.getD_some]

theorem charOf_eq_get_iff (byte : UInt8) (position : Fin alphabet.chars.length) :
    charOf alphabet.bytes byte = alphabet.chars.get position ↔
      byte.toNat % alphabet.size = position := by
  rw [charOf_eq, (List.nodup_iff_injective_get.mp alphabet.nodup_chars).eq_iff, Fin.ext_iff]

theorem charOf_mem (byte : UInt8) : charOf alphabet.bytes byte ∈ alphabet.chars := by
  rw [charOf_eq]
  exact List.get_mem _ _

theorem utf8Size_of_mem {c : Char} (hc : c ∈ alphabet.chars) : c.utf8Size = 1 := by
  obtain ⟨byte, hbyte, rfl⟩ := List.mem_map.mp hc
  have hascii := alphabet.isAscii byte hbyte
  rw [Char.utf8Size_eq_one_iff, UInt32.le_iff_toNat_le]
  change (Char.ofNat byte.toNat).toNat ≤ 127
  rw [toNat_ofNat_toNat hascii]
  omega

theorem byteLength_eq {out : List Char} (hout : ∀ c ∈ out, c ∈ alphabet.chars) :
    Utf8.byteLength out = out.length :=
  Utf8.byteLength_of_ascii fun c hc => alphabet.utf8Size_of_mem (hout c hc)

/-! ## Accepted bytes -/

theorem one_le_div : 1 ≤ 256 / alphabet.size :=
  (Nat.one_le_div_iff alphabet.size_pos).mpr (alphabet.size_le.trans (by decide))

end Alphabet

theorem biasLimit_le (n : ℕ) : biasLimit n ≤ 256 := Nat.div_mul_le_self 256 n

theorem add_mul_lt_biasLimit {n position : ℕ} (hposition : position < n)
    (multiple : Fin (256 / n)) :
    position + n * multiple < biasLimit n :=
  calc position + n * multiple < n + n * multiple := Nat.add_lt_add_right hposition _
    _ = n * (multiple + 1) := by rw [Nat.mul_succ, Nat.add_comm]
    _ ≤ n * (256 / n) := Nat.mul_le_mul_left n multiple.isLt
    _ = biasLimit n := Nat.mul_comm ..

/-- The accepted bytes that stand for a position are its sums with multiples of the length. -/
def positionBytes {n position : ℕ} (hposition : position < n) :
    Fin (256 / n) ≃ {byte : UInt8 // byte.toNat < biasLimit n ∧ byte.toNat % n = position} where
  toFun multiple := ⟨UInt8.ofNat (position + n * multiple), by
    have hlimit := add_mul_lt_biasLimit hposition multiple
    rw [Utf8.toNat_ofNat_of_lt (hlimit.trans_le (biasLimit_le n)), Nat.add_mul_mod_self_left,
      Nat.mod_eq_of_lt hposition]
    exact ⟨hlimit, rfl⟩⟩
  invFun byte := ⟨byte.1.toNat / n,
    (Nat.div_lt_iff_lt_mul (Nat.zero_lt_of_lt hposition)).mpr byte.2.1⟩
  left_inv multiple := by
    have hlimit := add_mul_lt_biasLimit hposition multiple
    apply Fin.ext
    change (UInt8.ofNat (position + n * multiple)).toNat / n = multiple
    rw [Utf8.toNat_ofNat_of_lt (hlimit.trans_le (biasLimit_le n)),
      Nat.add_mul_div_left _ _ (Nat.zero_lt_of_lt hposition), Nat.div_eq_of_lt hposition,
      Nat.zero_add]
  right_inv byte := by
    obtain ⟨byte, _, hmod⟩ := byte
    apply Subtype.ext
    change UInt8.ofNat (position + n * (byte.toNat / n)) = byte
    rw [← hmod, Nat.mod_add_div, UInt8.ofNat_toNat]

/-- Every position has the same number of accepted bytes. -/
theorem card_positionBytes {n position : ℕ} (hposition : position < n) :
    Nat.card {byte : UInt8 // byte.toNat < biasLimit n ∧ byte.toNat % n = position} = 256 / n := by
  rw [← Nat.card_congr (positionBytes hposition), Nat.card_fin]

namespace Alphabet

variable (alphabet : Alphabet)

theorem card_values {c : Char} (hc : c ∈ alphabet.chars) :
    Nat.card (Sampling.Values (isAccepted alphabet.bytes) (charOf alphabet.bytes) c) =
      256 / alphabet.size := by
  obtain ⟨position, rfl⟩ := List.get_of_mem hc
  have hposition : (position : ℕ) < alphabet.size := alphabet.length_chars ▸ position.isLt
  rw [← card_positionBytes hposition]
  refine Nat.card_congr (Equiv.subtypeEquivRight fun byte => ?_)
  rw [isAccepted, decide_eq_true_iff, charOf_eq_get_iff]
  rfl

/-- Every string is produced by the same number of sequences of accepted bytes. -/
theorem card_sequences {text : List Char} (htext : ∀ c ∈ text, c ∈ alphabet.chars) :
    Nat.card (Sampling.Sequences (isAccepted alphabet.bytes) (charOf alphabet.bytes) text) =
      (256 / alphabet.size) ^ text.length :=
  Sampling.card_sequences_of_forall fun c hc => alphabet.card_values (htext c hc)

/-- The strings of a length. -/
theorem card_strings (len : ℕ) :
    Nat.card {text : List Char // text.length = len ∧ ∀ c ∈ text, c ∈ alphabet.chars} =
      alphabet.size ^ len := by
  let listed (c : Char) : Bool := decide (c ∈ alphabet.chars)
  have hvalues : Nat.card (Sampling.Values listed (fun _ => ()) ()) = alphabet.size := by
    have hlisted : ∀ c, (listed c = true ∧ () = ()) ↔ c ∈ alphabet.chars := by simp [listed]
    calc Nat.card (Sampling.Values listed (fun _ => ()) ())
        = Nat.card {c // c ∈ alphabet.chars} := Nat.card_congr (Equiv.subtypeEquivRight hlisted)
      _ = Nat.card (Fin alphabet.chars.length) :=
          (Nat.card_congr (alphabet.nodup_chars.getEquiv alphabet.chars)).symm
      _ = alphabet.size := by rw [Nat.card_fin, length_chars]
  have hstrings : ∀ text : List Char,
      (text.length = len ∧ ∀ c ∈ text, c ∈ alphabet.chars) ↔
        (∀ c ∈ text, listed c = true) ∧ text.map (fun _ => ()) = List.replicate len () := by
    intro text
    simp only [listed, decide_eq_true_iff, List.map_const', List.replicate_inj, and_true, or_true]
    exact and_comm
  calc Nat.card {text : List Char // text.length = len ∧ ∀ c ∈ text, c ∈ alphabet.chars}
      = Nat.card (Sampling.Sequences listed (fun _ => ()) (List.replicate len ())) :=
        Nat.card_congr (Equiv.subtypeEquivRight hstrings)
    _ = alphabet.size ^ (List.replicate len ()).length :=
        Sampling.card_sequences_of_forall fun _ _ => hvalues
    _ = alphabet.size ^ len := by rw [List.length_replicate]

/-! ## The loop -/

theorem length_pushByte_le (out : List Char) (byte : UInt8) :
    (pushByte alphabet.bytes out byte).length ≤ out.length + 1 := by
  unfold pushByte
  split_ifs <;> simp

theorem pushByte_append_sampled (out : List Char) (byte : UInt8) (bytes : List UInt8) :
    pushByte alphabet.bytes out byte ++ alphabet.sampled bytes =
      out ++ alphabet.sampled (byte :: bytes) := by
  unfold pushByte sampled
  cases haccepted : isAccepted alphabet.bytes byte <;> simp [haccepted]

theorem mem_pushByte {out : List Char} (hout : ∀ c ∈ out, c ∈ alphabet.chars) (byte : UInt8) :
    ∀ c ∈ pushByte alphabet.bytes out byte, c ∈ alphabet.chars := by
  unfold pushByte
  split_ifs with haccepted
  · exact List.forall_mem_append.mpr
      ⟨hout, List.forall_mem_singleton.mpr (alphabet.charOf_mem byte)⟩
  · exact hout

/-- What the loop makes of what it has is that and the characters of the next accepted bytes. -/
theorem randomStringLoop_eq_some_iff {len : ℕ} (stream : ℕ → UInt8) (rounds position : ℕ)
    {out : List Char} (hout : ∀ c ∈ out, c ∈ alphabet.chars) (hlength : out.length ≤ len)
    (text : List Char) :
    randomStringLoop alphabet.bytes len stream rounds position out = some text ↔
      len ≤ (out ++ alphabet.sampled (window stream position rounds)).length ∧
        text = (out ++ alphabet.sampled (window stream position rounds)).take len := by
  induction rounds generalizing position out with
  | zero =>
      have hwindow : out ++ alphabet.sampled (window stream position 0) = out := List.append_nil out
      rw [randomStringLoop, alphabet.byteLength_eq hout, hwindow]
      split_ifs with hshort
      · simp [hshort]
      · rw [List.take_of_length_le (not_lt.mp hshort |>.antisymm hlength).ge]
        simp [not_lt.mp hshort, eq_comm]
  | succ rounds ih =>
      rw [randomStringLoop, alphabet.byteLength_eq hout]
      split_ifs with hshort
      · have hpush := alphabet.mem_pushByte hout (stream position)
        have hnext := (alphabet.length_pushByte_le out (stream position)).trans hshort
        rw [ih (position + 1) hpush hnext, pushByte_append_sampled]
        rfl
      · have hlen : out.length = len := hlength.antisymm (not_lt.mp hshort)
        rw [← hlen, List.take_left, List.length_append]
        simp [eq_comm]

end Alphabet

/-- The output is made of the accepted bytes, cut at its length; every position has the same number
of accepted bytes and every string the same number of sequences; and the loop ends if bytes keep
being accepted. -/
theorem randomString_unbiased (alphabet : Alphabet) (len : ℕ) :
    (∀ stream rounds text,
      randomString alphabet.bytes len stream rounds = .ok (some text) ↔
        len ≤ (alphabet.sampled (window stream 0 rounds)).length ∧
          text = (alphabet.sampled (window stream 0 rounds)).take len) ∧
    (∀ position < alphabet.size,
      Nat.card {byte : UInt8 // byte.toNat < biasLimit alphabet.size ∧
        byte.toNat % alphabet.size = position} = 256 / alphabet.size) ∧
    1 ≤ 256 / alphabet.size ∧
    Nat.card {text : List Char // text.length = len ∧ ∀ c ∈ text, c ∈ alphabet.chars} =
      alphabet.size ^ len ∧
    (∀ text : List Char, text.length = len → (∀ c ∈ text, c ∈ alphabet.chars) →
      Nat.card {bytes : List UInt8 // (∀ byte ∈ bytes, isAccepted alphabet.bytes byte = true) ∧
        bytes.map (charOf alphabet.bytes) = text} = (256 / alphabet.size) ^ len) ∧
    ∀ stream : ℕ → UInt8,
      (∀ start, ∃ index ≥ start, isAccepted alphabet.bytes (stream index) = true) →
        ∃ rounds text, randomString alphabet.bytes len stream rounds = .ok (some text) := by
  have houtput : ∀ stream rounds text,
      randomString alphabet.bytes len stream rounds = .ok (some text) ↔
        len ≤ (alphabet.sampled (window stream 0 rounds)).length ∧
          text = (alphabet.sampled (window stream 0 rounds)).take len := by
    intro stream rounds text
    have hempty : ∀ c ∈ [], c ∈ alphabet.chars := List.forall_mem_nil _
    have hloop :=
      alphabet.randomStringLoop_eq_some_iff stream rounds 0 hempty (Nat.zero_le len) text
    rw [List.nil_append] at hloop
    rw [randomString, if_neg (by simp [alphabet.ne_nil]), Except.ok.injEq, hloop]
  refine ⟨houtput, fun position hposition => card_positionBytes hposition, alphabet.one_le_div,
    alphabet.card_strings len, ?_, ?_⟩
  · rintro text rfl htext
    exact alphabet.card_sequences htext
  · intro stream hkeeps
    obtain ⟨rounds, hrounds⟩ := Sampling.exists_le_length_accepted hkeeps len
    refine ⟨rounds, _, (houtput stream rounds _).mpr ⟨?_, rfl⟩⟩
    rwa [Alphabet.sampled, List.length_map]

/-- `DIGITS` of the one-time codes. -/
def digits : Alphabet where
  bytes := [48, 49, 50, 51, 52, 53, 54, 55, 56, 57]
  ne_nil := by decide
  nodup := by decide
  isAscii := by simp

example : randomString digits.bytes 2 (fun i => [250, 13, 255, 7].getD i 0) 4 =
    .ok (some ['3', '7']) := by rfl

end Modo.Auth
