import Modo.Lib.Bits

/-!
# Text codes of bit groups

A code writes the bits of its bytes in groups, one character a group and without padding, and
reads the groups back in bytes.  The bits that are yet to be written stay at the low end of a
buffer of one machine word; its upper bits are stale, and are shifted out.

Both loops cut one run of bits: `encode_padded` and `decode_cuts`.  The round trip
(`decode_encode`) and the texts that are written back as they were (`encode_eq_iff`) are then
facts about `Bits.Cuts`.
-/

open Bits (Cuts Padded)

/-- A code of `width` bits a character, with a buffer of `word` bits. -/
structure BitCode where
  width : ℕ
  word : ℕ
  /-- The character of a group. -/
  digit : ℕ → Char
  /-- What becomes of a character before it is looked up. -/
  fold : Char → Char
  value : Char → Option ℕ
  width_pos : 0 < width
  width_le : width ≤ 8
  word_le : width + 7 ≤ word
  value_digit : ∀ group < 2 ^ width, value (digit group) = some group
  fold_digit : ∀ group < 2 ^ width, fold (digit group) = digit group
  digit_of_value : ∀ {ch group}, value ch = some group → group < 2 ^ width ∧ digit group = ch

namespace BitCode

variable (C : BitCode)

/-- Shift `value` into the buffer from the right. -/
def shiftIn (bits buffer value : ℕ) : ℕ := (buffer <<< bits ||| value) % 2 ^ C.word

/-- The character of the lowest bits of a number. -/
def mask (n : ℕ) : Char := C.digit (n &&& 2 ^ C.width - 1)

/-- Write groups as long as there are any. -/
def writeGroups (buffer left : ℕ) : List Char × ℕ :=
  if C.width ≤ left then
    let (chars, rest) := writeGroups buffer (left - C.width)
    (C.mask (buffer >>> (left - C.width)) :: chars, rest)
  else ([], left)
termination_by left
decreasing_by
  have hpos := C.width_pos
  omega

/-- Write the bytes, and fill up the last group. -/
def encodeLoop (buffer bitsLeft : ℕ) : List UInt8 → List Char
  | [] => if 0 < bitsLeft then [C.mask (buffer <<< (C.width - bitsLeft))] else []
  | byte :: rest =>
      let buffer := C.shiftIn 8 buffer byte.toNat
      let (chars, bitsLeft) := C.writeGroups buffer (bitsLeft + 8)
      chars ++ encodeLoop buffer bitsLeft rest

def encode (bytes : List UInt8) : List Char :=
  if bytes.isEmpty then [] else C.encodeLoop 0 0 bytes

/-- Read the groups; the error is the character that has no value. -/
def decodeLoop (buffer bitsLeft : ℕ) : List Char → Except Char (List UInt8)
  | [] => .ok []
  | ch :: rest =>
      match C.value (C.fold ch) with
      | none => .error (C.fold ch)
      | some value =>
          let buffer := C.shiftIn C.width buffer value
          let bitsLeft := bitsLeft + C.width
          if 8 ≤ bitsLeft then
            (decodeLoop buffer (bitsLeft - 8) rest).map fun bytes =>
              UInt8.ofNat (buffer >>> (bitsLeft - 8)) :: bytes
          else decodeLoop buffer bitsLeft rest

def decode (encoded : List Char) : Except Char (List UInt8) :=
  if encoded.isEmpty then .ok [] else C.decodeLoop 0 0 encoded

/-- The groups of a text. -/
def values (encoded : List Char) : List ℕ :=
  encoded.map fun ch => (C.value (C.fold ch)).getD 0

/-- The bits of a text that complete no byte. -/
def unusedBits (encoded : List Char) : List Bool :=
  (Bits.ofNats C.width (C.values encoded)).drop (8 * (C.width * encoded.length / 8))

variable {C}

theorem encode_eq (bytes : List UInt8) : C.encode bytes = C.encodeLoop 0 0 bytes := by
  cases bytes <;> rfl

theorem decode_eq (encoded : List Char) : C.decode encoded = C.decodeLoop 0 0 encoded := by
  cases encoded <;> rfl

theorem mask_eq (n : ℕ) : C.mask n = C.digit (n % 2 ^ C.width) := by
  rw [mask, Nat.and_two_pow_sub_one_eq_mod]

/-- A number is shifted in behind what is pending. -/
theorem ofNat_shiftIn {left bits value : ℕ} (hword : left + bits ≤ C.word)
    (hvalue : value < 2 ^ bits) (buffer : ℕ) :
    Bits.ofNat (left + bits) (C.shiftIn bits buffer value) =
      Bits.ofNat left buffer ++ Bits.ofNat bits value :=
  Bits.ofNat_shiftIn hword hvalue buffer

/-! ## What the loops cut -/

theorem writeGroups_spec (buffer left : ℕ) :
    ∃ groups, (C.writeGroups buffer left).1 = groups.map C.digit ∧
      Cuts C.width (Bits.ofNat left buffer) groups
        (Bits.ofNat (C.writeGroups buffer left).2 buffer) ∧
      (C.writeGroups buffer left).2 < C.width := by
  induction left using Nat.strong_induction_on with
  | h left ih =>
      have hpos := C.width_pos
      rw [writeGroups]
      split_ifs with hfull
      · obtain ⟨groups, hchars, hcuts, hlt⟩ := ih (left - C.width) (by omega)
        refine ⟨(buffer >>> (left - C.width)) % 2 ^ C.width :: groups, ?_, ?_, hlt⟩
        · rw [List.map_cons, ← hchars, mask_eq]
        · rw [Bits.ofNat_of_le hfull]
          exact hcuts.cons (Nat.mod_lt _ (Nat.two_pow_pos _))
      · have hlt : left < C.width := not_le.mp hfull
        exact ⟨[], rfl, Cuts.nil (by simpa using hlt), hlt⟩

/-- **The groups that are written** are those of the pending bits and the bytes. -/
theorem encodeLoop_padded (bytes : List UInt8) :
    ∀ buffer left, left < C.width →
      ∃ groups, C.encodeLoop buffer left bytes = groups.map C.digit ∧
        Padded C.width
          (Bits.ofNat left buffer ++ Bits.ofNats 8 (bytes.map UInt8.toNat)) groups := by
  have hword := C.word_le
  induction bytes with
  | nil =>
      intro buffer left hleft
      rw [List.map_nil, Bits.ofNats_nil, List.append_nil]
      -- bits that are left are filled up with zeros
      rcases Nat.eq_zero_or_pos left with rfl | hpos
      · exact ⟨[], rfl, 0, hleft, Cuts.nil (by simpa using hleft)⟩
      · refine ⟨[(buffer <<< (C.width - left)) % 2 ^ C.width], ?_, C.width - left,
          by omega, ?_⟩
        · rw [encodeLoop, if_pos hpos, mask_eq]
          rfl
        · have hgroup : Bits.ofNat left buffer ++ List.replicate (C.width - left) false =
              Bits.ofNat C.width ((buffer <<< (C.width - left)) % 2 ^ C.width) ++ [] := by
            rw [Bits.ofNat_mod le_rfl, List.append_nil, ← Bits.ofNat_shiftLeft]
            congr 1
            omega
          rw [hgroup]
          exact Cuts.cons (Nat.mod_lt _ (Nat.two_pow_pos _)) (Cuts.nil C.width_pos)
  | cons byte rest ih =>
      intro buffer left hleft
      obtain ⟨written, hchars, hcuts, hlt⟩ :=
        writeGroups_spec (C := C) (C.shiftIn 8 buffer byte.toNat) (left + 8)
      obtain ⟨groups, hrest, pad, hpad, hpadded⟩ := ih _ _ hlt
      refine ⟨written ++ groups, ?_, pad, hpad, ?_⟩
      · rw [encodeLoop, List.map_append, ← hchars, ← hrest]
      · rw [ofNat_shiftIn (by omega) byte.toNat_lt] at hcuts
        rw [List.append_assoc] at hpadded
        rw [List.map_cons, Bits.ofNats_cons, List.append_assoc, List.append_assoc,
          ← List.append_assoc (Bits.ofNat left buffer)]
        exact hcuts.append hpadded

theorem encode_padded (bytes : List UInt8) :
    ∃ groups, C.encode bytes = groups.map C.digit ∧
      Padded C.width (Bits.ofNats 8 (bytes.map UInt8.toNat)) groups := by
  rw [encode_eq]
  exact encodeLoop_padded bytes 0 0 C.width_pos

/-- **The bytes that are read** are those of the pending bits and the groups. -/
theorem decodeLoop_cuts {encoded : List Char} :
    ∀ {buffer left : ℕ} {bytes : List UInt8}, left < 8 →
      C.decodeLoop buffer left encoded = .ok bytes →
        ∃ rest, Cuts 8 (Bits.ofNat left buffer ++ Bits.ofNats C.width (C.values encoded))
          (bytes.map UInt8.toNat) rest := by
  have hword := C.word_le
  have hwidth := C.width_le
  induction encoded with
  | nil =>
      intro buffer left bytes hleft hok
      obtain rfl := Except.ok.inj hok
      refine ⟨Bits.ofNat left buffer, ?_⟩
      rw [values, List.map_nil, Bits.ofNats_nil, List.append_nil]
      exact Cuts.nil (by rwa [Bits.length_ofNat])
  | cons ch encoded ih =>
      intro buffer left bytes hleft hok
      rw [decodeLoop] at hok
      cases hch : C.value (C.fold ch) with
      | none =>
          rw [hch] at hok
          cases hok
      | some value =>
          simp only [hch] at hok
          have hvalues : C.values (ch :: encoded) = value :: C.values encoded := by
            simp only [values, List.map_cons, hch, Option.getD_some]
          rw [hvalues, Bits.ofNats_cons, ← List.append_assoc,
            ← ofNat_shiftIn (C := C) (by omega) (C.digit_of_value hch).1]
          -- a byte is written as soon as there are eight bits
          split_ifs at hok with hfull
          · cases hrest : C.decodeLoop (C.shiftIn C.width buffer value)
                (left + C.width - 8) encoded with
            | error wrong =>
                rw [hrest] at hok
                cases hok
            | ok others =>
                rw [hrest] at hok
                obtain rfl := Except.ok.inj hok
                obtain ⟨rest, hcuts⟩ := ih (by omega) hrest
                rw [Bits.ofNat_of_le hfull, List.append_assoc, List.map_cons, UInt8.toNat_ofNat']
                exact ⟨rest, hcuts.cons (Nat.mod_lt _ (by norm_num))⟩
          · exact ih (by omega) hok

theorem decode_cuts {encoded : List Char} {bytes : List UInt8}
    (hok : C.decode encoded = .ok bytes) :
    ∃ rest, Cuts 8 (Bits.ofNats C.width (C.values encoded)) (bytes.map UInt8.toNat) rest := by
  rw [decode_eq] at hok
  exact decodeLoop_cuts (by omega) hok

/-! ## Which texts are accepted -/

theorem decodeLoop_isOk_iff (buffer bitsLeft : ℕ) (encoded : List Char) :
    (C.decodeLoop buffer bitsLeft encoded).isOk = true ↔
      ∀ ch ∈ encoded, (C.value (C.fold ch)).isSome = true := by
  induction encoded generalizing buffer bitsLeft with
  | nil => simp [decodeLoop, Except.isOk, Except.toBool]
  | cons ch rest ih =>
      rw [List.forall_mem_cons, decodeLoop]
      cases C.value (C.fold ch) with
      | none => simp [Except.isOk, Except.toBool]
      | some value =>
          simp only [Option.isSome_some, true_and]
          split
          · rw [← ih (C.shiftIn C.width buffer value) (bitsLeft + C.width - 8)]
            cases C.decodeLoop (C.shiftIn C.width buffer value)
              (bitsLeft + C.width - 8) rest <;> rfl
          · exact ih _ _

theorem decode_isOk_iff (encoded : List Char) :
    (C.decode encoded).isOk = true ↔
      ∀ ch ∈ encoded, (C.value (C.fold ch)).isSome = true := by
  rw [decode_eq]
  exact decodeLoop_isOk_iff 0 0 encoded

theorem exists_decode {encoded : List Char}
    (hdigits : ∀ ch ∈ encoded, (C.value (C.fold ch)).isSome = true) :
    ∃ bytes, C.decode encoded = .ok bytes := by
  have hok := (decode_isOk_iff encoded).mpr hdigits
  cases hdecode : C.decode encoded with
  | error wrong =>
      rw [hdecode] at hok
      cases hok
  | ok bytes => exact ⟨bytes, rfl⟩

/-! ## The digits of a text -/

theorem values_map_digit {groups : List ℕ} (hgroups : ∀ group ∈ groups, group < 2 ^ C.width) :
    C.values (groups.map C.digit) = groups := by
  rw [values, List.map_map]
  conv_rhs => rw [← List.map_id groups]
  rw [List.map_inj_left]
  intro group hmem
  have hlt := hgroups group hmem
  rw [Function.comp_apply, C.fold_digit group hlt, C.value_digit group hlt]
  rfl

theorem map_digit_injective {groups others : List ℕ}
    (hgroups : ∀ group ∈ groups, group < 2 ^ C.width)
    (hothers : ∀ other ∈ others, other < 2 ^ C.width)
    (hmap : groups.map C.digit = others.map C.digit) : groups = others := by
  rw [← values_map_digit hgroups, hmap, values_map_digit hothers]

/-- An accepted text is its digits. -/
theorem map_digit_values {encoded : List Char}
    (hdigits : ∀ ch ∈ encoded, (C.value (C.fold ch)).isSome = true) :
    (C.values encoded).map C.digit = encoded.map C.fold := by
  rw [values, List.map_map, List.map_inj_left]
  intro ch hmem
  obtain ⟨value, hvalue⟩ := Option.isSome_iff_exists.mp (hdigits ch hmem)
  rw [Function.comp_apply, hvalue]
  exact (C.digit_of_value hvalue).2

theorem lt_of_mem_values {encoded : List Char} {group : ℕ} (hmem : group ∈ C.values encoded) :
    group < 2 ^ C.width := by
  obtain ⟨ch, -, rfl⟩ := List.mem_map.mp hmem
  cases hch : C.value (C.fold ch) with
  | none => exact Nat.two_pow_pos _
  | some value => exact (C.digit_of_value hch).1

theorem isSome_of_mem_encode {bytes : List UInt8} {ch : Char} (hmem : ch ∈ C.encode bytes) :
    (C.value (C.fold ch)).isSome = true := by
  obtain ⟨groups, hchars, pad, -, hcuts⟩ := encode_padded (C := C) bytes
  rw [hchars] at hmem
  obtain ⟨group, hgroup, rfl⟩ := List.mem_map.mp hmem
  have hlt := hcuts.lt group hgroup
  rw [C.fold_digit group hlt, C.value_digit group hlt]
  rfl

/-! ## The round trips -/

/-- **What was encoded is decoded.** -/
theorem decode_encode (bytes : List UInt8) : C.decode (C.encode bytes) = .ok bytes := by
  obtain ⟨decoded, hdecoded⟩ :=
    exists_decode (C := C) fun ch hmem => isSome_of_mem_encode hmem
  obtain ⟨groups, hchars, hpadded⟩ := encode_padded (C := C) bytes
  obtain ⟨rest, hcuts⟩ := decode_cuts hdecoded
  have hbytes : ∀ value ∈ bytes.map UInt8.toNat, value < 2 ^ 8 := by
    intro value hvalue
    obtain ⟨byte, -, rfl⟩ := List.mem_map.mp hvalue
    exact byte.toNat_lt
  rw [hchars, values_map_digit hpadded.lt] at hcuts
  obtain ⟨rest', hcuts'⟩ := Cuts.of_padded C.width_le hbytes hpadded
  have hsame := List.map_injective_iff.mpr (fun _ _ => UInt8.toNat_inj.mp) (hcuts.unique hcuts').1
  rw [hdecoded, hsame]

theorem length_encode (bytes : List UInt8) :
    (C.encode bytes).length = (8 * bytes.length + (C.width - 1)) / C.width := by
  obtain ⟨groups, hchars, hpadded⟩ := encode_padded (C := C) bytes
  rw [hchars, List.length_map, hpadded.length_groups, Bits.length_ofNats, List.length_map]

/-- **The texts that are written back as they were** leave less than a group unused, and these
bits are zeros. -/
theorem encode_eq_iff {encoded : List Char} {bytes : List UInt8}
    (hok : C.decode encoded = .ok bytes) :
    C.encode bytes = encoded.map C.fold ↔
      C.width * encoded.length % 8 < C.width ∧
        ∀ bit ∈ C.unusedBits encoded, bit = false := by
  have hdigits := (decode_isOk_iff encoded).mp (by rw [hok]; rfl)
  obtain ⟨groups, hchars, hpadded⟩ := encode_padded (C := C) bytes
  obtain ⟨rest, hcuts⟩ := decode_cuts hok
  have hvalues : ∀ value ∈ C.values encoded, value < 2 ^ C.width :=
    fun _ hmem => lt_of_mem_values hmem
  have hlength : (Bits.ofNats C.width (C.values encoded)).length =
      C.width * encoded.length := by
    rw [Bits.length_ofNats, values, List.length_map]
  have hrest : rest = C.unusedBits encoded := by rw [hcuts.rest_eq, hlength, unusedBits]
  have hrestLength : rest.length = C.width * encoded.length % 8 := by
    rw [hcuts.length_rest, hlength]
  rw [hchars, ← map_digit_values hdigits, ← hrest, ← hrestLength,
    ← Bits.padded_eq_iff hvalues hcuts hpadded]
  exact ⟨map_digit_injective hpadded.lt hvalues, congrArg _⟩

end BitCode
