import Modo.Lib.Radix
import Modo.Lib.Utf8

/-!
# Short ids

`short` packs 42 bits of the time and 22 random bits into a number and writes it in thirteen digits
of base 36.

`short_ids` says that the texts compare as the numbers do, and so as the times.
-/

namespace Modo.Id

/-- `BASE36_CHARS`. -/
def base36Chars : List Char := "0123456789abcdefghijklmnopqrstuvwxyz".toList

/-- `SHORT_ID_LEN`. -/
def shortIdLen : ℕ := 13

/-- The byte of a digit. -/
def digitByte (digit : ℕ) : UInt8 := UInt8.ofNat (base36Chars.getD digit '0').toNat

/-- The loop of `encode_base36`, with the positions from the back that are still to be filled. -/
def encodeLoop : ℕ → UInt64 → List UInt8 → List UInt8
  | 0, _, buf => buf
  | i + 1, n, buf =>
      encodeLoop i (n / 36) (buf.set i (digitByte (n % 36).toNat))

/-- `encode_base36`; it panics if the bytes are no text. -/
def encodeBase36 (n : UInt64) : Option String :=
  String.fromUTF8? (encodeLoop shortIdLen n (List.replicate shortIdLen 48)).toByteArray

/-- The number behind a short id. -/
def pack (millis : ℕ) (random : UInt32) : UInt64 :=
  let ms := UInt64.ofNat millis
  let ts := ms &&& ((1 : UInt64) <<< 42 - 1)
  let randBits := random &&& ((1 : UInt32) <<< 22 - 1)
  ts <<< 22 ||| randBits.toUInt64

/-- `short`, from the time since the epoch and a random number.  It panics if the clock is set
before the epoch. -/
def short (elapsed : Option ℕ) (random : UInt32) : Option String :=
  elapsed.bind fun millis => encodeBase36 (pack millis random)

@[simp] theorem short_some (millis : ℕ) (random : UInt32) :
    short (some millis) random = encodeBase36 (pack millis random) := by
  rw [short, Option.bind_some]

/-! ## The digits -/

/-- The bytes of a number in base 36. -/
def base36Bytes (width : ℕ) (n : UInt64) : List UInt8 :=
  (Radix.digits 36 width n.toNat).map digitByte

/-- The loop writes the digits in front of what it leaves. -/
theorem encodeLoop_eq (i : ℕ) (n : UInt64) (buf : List UInt8) (hlength : i ≤ buf.length) :
    encodeLoop i n buf = base36Bytes i n ++ buf.drop i := by
  induction i generalizing n buf with
  | zero => rfl
  | succ i ih =>
      have hdigits : base36Bytes (i + 1) n =
          base36Bytes i (n / 36) ++ [digitByte (n % 36).toNat] := by
        rw [base36Bytes, Radix.digits, List.map_append]
        rfl
      have hdrop : (buf.set i (digitByte (n % 36).toNat)).drop i =
          digitByte (n % 36).toNat :: buf.drop (i + 1) := by
        rw [List.drop_eq_getElem_cons (by rw [List.length_set]; omega), List.getElem_set_self,
          List.drop_set_of_lt (Nat.lt_succ_self i)]
      calc encodeLoop (i + 1) n buf
          = base36Bytes i (n / 36) ++ (buf.set i (digitByte (n % 36).toNat)).drop i :=
            ih _ _ (by rw [List.length_set]; omega)
        _ = base36Bytes (i + 1) n ++ buf.drop (i + 1) := by
            rw [hdrop, hdigits, List.append_assoc, List.singleton_append]

theorem utf8EncodeChar_base36 : ∀ digit < 36,
    String.utf8EncodeChar (base36Chars.getD digit '0') = [digitByte digit] := by decide

/-- The bytes are a text. -/
theorem exists_text (width : ℕ) (n : UInt64) :
    ∃ text : List Char, text.length = width ∧
      text.flatMap String.utf8EncodeChar = base36Bytes width n := by
  refine ⟨(Radix.digits 36 width n.toNat).map fun digit => base36Chars.getD digit '0', by simp, ?_⟩
  rw [base36Bytes, List.flatMap_map, List.map_eq_flatMap]
  exact List.flatMap_congr fun digit hdigit =>
    utf8EncodeChar_base36 digit (Radix.lt_of_mem_digits (by decide) hdigit)

theorem encodeBase36_eq (n : UInt64) :
    ∃ id, encodeBase36 n = some id ∧ id.length = shortIdLen ∧
      Utf8.asBytes id = base36Bytes shortIdLen n := by
  obtain ⟨text, hlength, hbytes⟩ := exists_text shortIdLen n
  refine ⟨String.ofList text, ?_, by simpa using hlength, by simpa [Utf8.asBytes] using hbytes⟩
  have harray : (encodeLoop shortIdLen n (List.replicate shortIdLen 48)).toByteArray =
      (String.ofList text).toByteArray := by
    rw [encodeLoop_eq _ _ _ (by simp), List.drop_of_length_le (by simp), List.append_nil, ← hbytes]
    simp [List.utf8Encode]
  rw [encodeBase36, harray, String.fromUTF8?, dif_pos (String.ofList _).isValidUTF8]
  rfl

/-! ## Their order -/

theorem digitByte_lt_iff : ∀ m < 36, ∀ n < 36, digitByte m < digitByte n ↔ m < n := by decide

theorem digitByte_eq_iff : ∀ m < 36, ∀ n < 36, digitByte m = digitByte n ↔ m = n := by decide

theorem toNat_lt_pow (n : UInt64) : n.toNat < 36 ^ shortIdLen :=
  calc n.toNat < 2 ^ 64 := n.toNat_lt
    _ ≤ 36 ^ shortIdLen := by decide

theorem base36Bytes_lt_iff (m n : UInt64) :
    base36Bytes shortIdLen m < base36Bytes shortIdLen n ↔ m < n := by
  have hdigits : ∀ n : UInt64, ∀ value ∈ Radix.digits 36 shortIdLen n.toNat, value < 36 :=
    fun n value => Radix.lt_of_mem_digits (by decide)
  rw [base36Bytes, base36Bytes,
    Radix.map_lt_map_iff digitByte_lt_iff digitByte_eq_iff (hdigits m) (hdigits n),
    Radix.digits_lt_digits_iff (by decide) (toNat_lt_pow m) (toNat_lt_pow n),
    UInt64.lt_iff_toNat_lt]

theorem base36Bytes_injective : Function.Injective (base36Bytes shortIdLen) := by
  intro m n heq
  have hnot : ∀ {m n : UInt64}, base36Bytes shortIdLen m = base36Bytes shortIdLen n → ¬m < n := by
    intro m n heq hlt
    rw [← base36Bytes_lt_iff, heq] at hlt
    exact List.lt_irrefl _ hlt
  exact UInt64.le_antisymm (UInt64.not_lt.mp (hnot heq.symm)) (UInt64.not_lt.mp (hnot heq))

/-- The number of an id: the time, then the random bits. -/
theorem toNat_pack (millis : ℕ) (random : UInt32) :
    (pack millis random).toNat = millis % 2 ^ 42 * 2 ^ 22 + random.toNat % 2 ^ 22 := by
  have htime : (UInt64.ofNat millis &&& ((1 : UInt64) <<< 42 - 1)).toNat = millis % 2 ^ 42 := by
    have hmask : ((1 : UInt64) <<< 42 - 1).toNat = 2 ^ 42 - 1 := by decide
    rw [UInt64.toNat_and, hmask, Nat.and_two_pow_sub_one_eq_mod, UInt64.toNat_ofNat']
    exact Nat.mod_mod_of_dvd _ (by decide)
  have hrandom : (random &&& ((1 : UInt32) <<< 22 - 1)).toUInt64.toNat = random.toNat % 2 ^ 22 := by
    have hmask : ((1 : UInt32) <<< 22 - 1).toNat = 2 ^ 22 - 1 := by decide
    rw [UInt32.toNat_toUInt64, UInt32.toNat_and, hmask, Nat.and_two_pow_sub_one_eq_mod]
  have hshift : ((UInt64.ofNat millis &&& ((1 : UInt64) <<< 42 - 1)) <<< 22).toNat =
      (millis % 2 ^ 42) <<< 22 := by
    rw [UInt64.toNat_shiftLeft, htime]
    refine Nat.mod_eq_of_lt ?_
    rw [Nat.shiftLeft_eq]
    have hbound := Nat.mod_lt millis (show 0 < 2 ^ 42 by decide)
    change millis % 2 ^ 42 * 2 ^ 22 < 2 ^ 64
    omega
  have hbits := Nat.mod_lt random.toNat (show 0 < 2 ^ 22 by decide)
  rw [pack, UInt64.toNat_or, hshift, hrandom, ← Nat.shiftLeft_add_eq_or_of_lt hbits,
    Nat.shiftLeft_eq]

/-- The time counts more than the random bits. -/
theorem pack_lt_pack {millis millis' : ℕ} (hlt : millis < millis') (hbound : millis' < 2 ^ 42)
    (random random' : UInt32) : pack millis random < pack millis' random' := by
  rw [UInt64.lt_iff_toNat_lt, toNat_pack, toNat_pack, Nat.mod_eq_of_lt (hlt.trans hbound),
    Nat.mod_eq_of_lt hbound]
  have hbits := Nat.mod_lt random.toNat (show 0 < 2 ^ 22 by decide)
  omega

/-- Every number has an id of thirteen characters, ids compare byte by byte as their numbers do,
and so do the ids of different milliseconds. -/
theorem short_ids :
    (∀ n, ∃ id, encodeBase36 n = some id ∧ id.length = 13) ∧
    (∀ m n id id', encodeBase36 m = some id → encodeBase36 n = some id' →
      (Utf8.asBytes id < Utf8.asBytes id' ↔ m < n) ∧ (id = id' ↔ m = n)) ∧
    ∀ millis random, ∃ id, short (some millis) random = some id ∧ id.length = 13 ∧
      ∀ millis' random' id', short (some millis') random' = some id' →
        millis < millis' → millis' < 2 ^ 42 → Utf8.asBytes id < Utf8.asBytes id' := by
  have hbytes : ∀ {n id}, encodeBase36 n = some id →
      Utf8.asBytes id = base36Bytes shortIdLen n := by
    intro n id hid
    obtain ⟨text, htext, -, hbytes⟩ := encodeBase36_eq n
    rwa [← Option.some.inj (htext.symm.trans hid)]
  refine ⟨fun n => ?_, fun m n id id' hm hn => ⟨?_, ?_⟩, fun millis random => ?_⟩
  · obtain ⟨id, hid, hlength, -⟩ := encodeBase36_eq n
    exact ⟨id, hid, hlength⟩
  · rw [hbytes hm, hbytes hn, base36Bytes_lt_iff]
  · rw [← Utf8.asBytes_injective.eq_iff, hbytes hm, hbytes hn, base36Bytes_injective.eq_iff]
  · obtain ⟨id, hid, hlength, hidBytes⟩ := encodeBase36_eq (pack millis random)
    rw [short_some]
    refine ⟨id, hid, hlength, fun millis' random' id' hshort hlt hbound => ?_⟩
    rw [short_some] at hshort
    rw [hidBytes, hbytes hshort, base36Bytes_lt_iff]
    exact pack_lt_pack hlt hbound random random'

end Modo.Id
