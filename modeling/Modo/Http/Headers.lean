import Modo.Lib.Utf8Slice

/-!
# Request headers

`HeaderMap` and the parts of a request as the program reads them.  A header value is a
list of bytes, and only visible ASCII is read as text.
-/

namespace Modo.Http

/-- `HeaderValue`. -/
abbrev HeaderValue := List UInt8

/-- The bytes of a value that is text. -/
def isVisibleAscii (byte : UInt8) : Bool := decide (32 ≤ byte ∧ byte < 127 ∨ byte = 9)

/-- `HeaderValue::to_str`. -/
def toStr (value : HeaderValue) : Option (List Char) :=
  if value.all isVisibleAscii then some (value.map fun byte => Char.ofNat byte.toNat) else none

/-- The bytes of a text. -/
def ofText (text : List Char) : HeaderValue := text.flatMap String.utf8EncodeChar

/-- The bytes of a value that is made from a text.  The `http` crate documents visible ASCII
and accepts the bytes from 128 as well; `opaqueBytes` says whether it does. -/
def isValidByte (opaqueBytes : Bool) (byte : UInt8) : Bool :=
  isVisibleAscii byte || opaqueBytes && decide (128 ≤ byte)

/-- `HeaderValue::from_str`. -/
def fromStr (opaqueBytes : Bool) (text : List Char) : Option HeaderValue :=
  if (ofText text).all (isValidByte opaqueBytes) then some (ofText text) else none

/-- `HeaderMap`: the fields in their order, under lower-case names. -/
abbrev HeaderMap := List (String × HeaderValue)

/-- `HeaderMap::get`: the first field of that name. -/
def HeaderMap.get (headers : HeaderMap) (name : String) : Option HeaderValue :=
  headers.lookup name.toLower

/-- The first field of that name as a text. -/
def HeaderMap.getStr (headers : HeaderMap) (name : String) : Option (List Char) :=
  (headers.get name).bind toStr

/-- `Parts`. -/
structure Parts where
  headers : HeaderMap
  /-- `uri.query()`. -/
  query : Option (List Char)

/-! ## Reading a value as text -/

theorem toStr_append (first second : HeaderValue) :
    toStr (first ++ second) =
      (toStr first).bind fun text => (toStr second).map fun rest => text ++ rest := by
  unfold toStr
  rw [List.all_append]
  cases first.all isVisibleAscii <;> cases second.all isVisibleAscii <;> simp

/-! ## The bytes of a text -/

/-- The characters of a value that is read as text. -/
def isVisibleChar (c : Char) : Bool := decide (32 ≤ c.toNat ∧ c.toNat < 127 ∨ c.toNat = 9)

@[simp] theorem ofText_nil : ofText [] = [] := rfl

@[simp] theorem ofText_cons (c : Char) (text : List Char) :
    ofText (c :: text) = String.utf8EncodeChar c ++ ofText text := rfl

@[simp] theorem ofText_append (first second : List Char) :
    ofText (first ++ second) = ofText first ++ ofText second := List.flatMap_append

theorem isVisibleAscii_iff (byte : UInt8) :
    isVisibleAscii byte = true ↔ 32 ≤ byte.toNat ∧ byte.toNat < 127 ∨ byte.toNat = 9 := by
  simp [isVisibleAscii, UInt8.le_iff_toNat_le, UInt8.lt_iff_toNat_lt, ← UInt8.toNat_inj]

theorem isVisibleChar_iff (c : Char) :
    isVisibleChar c = true ↔ 32 ≤ c.toNat ∧ c.toNat < 127 ∨ c.toNat = 9 := by
  simp [isVisibleChar]

/-- A character is visible if a byte of it is, and then it is that byte. -/
theorem isVisibleChar_of_byte {c : Char} {byte : UInt8}
    (hmem : byte ∈ String.utf8EncodeChar c) (hvisible : isVisibleAscii byte = true) :
    isVisibleChar c = true := by
  rw [isVisibleAscii_iff] at hvisible
  have heq := Utf8.toNat_eq_of_mem_utf8EncodeChar (by omega) hmem
  rw [isVisibleChar_iff, ← heq]
  exact hvisible

theorem utf8EncodeChar_of_visible {c : Char} (hc : isVisibleChar c = true) :
    String.utf8EncodeChar c = [UInt8.ofNat c.toNat] := by
  rw [isVisibleChar_iff] at hc
  exact Utf8.utf8EncodeChar_ascii (by omega)

/-- Visible characters are read back. -/
theorem toStr_ofText {text : List Char} (htext : ∀ c ∈ text, isVisibleChar c = true) :
    toStr (ofText text) = some text := by
  induction text with
  | nil => rfl
  | cons c rest ih =>
      have hc := htext c List.mem_cons_self
      have hbyte : toStr [UInt8.ofNat c.toNat] = some [c] := by
        rw [isVisibleChar_iff] at hc
        have htoNat := Utf8.toNat_ofNat_of_lt (n := c.toNat) (by omega)
        have hvisible : isVisibleAscii (UInt8.ofNat c.toNat) = true := by
          rw [isVisibleAscii_iff, htoNat]
          exact hc
        simp only [toStr, List.all_cons, hvisible, List.all_nil, Bool.and_self, if_true,
          List.map_cons, htoNat, Char.ofNat_toNat, List.map_nil]
      rw [ofText_cons, utf8EncodeChar_of_visible hc, toStr_append, hbyte,
        ih fun d hd => htext d (List.mem_cons_of_mem c hd)]
      rfl

/-- A text is read back only if all of its characters are visible. -/
theorem isVisibleChar_of_toStr {text read : List Char} (hread : toStr (ofText text) = some read) :
    ∀ c ∈ text, isVisibleChar c = true := by
  intro c hc
  have hall : (ofText text).all isVisibleAscii = true := by
    by_contra hnot
    rw [toStr, if_neg hnot] at hread
    cases hread
  obtain ⟨byte, rest, hbytes⟩ := List.exists_cons_of_ne_nil (String.utf8EncodeChar_ne_nil (c := c))
  have hmem : byte ∈ String.utf8EncodeChar c := hbytes ▸ List.mem_cons_self
  exact isVisibleChar_of_byte hmem
    (List.all_eq_true.mp hall byte (List.mem_flatMap.mpr ⟨c, hc, hmem⟩))

theorem isValidByte_of_visible {opaqueBytes : Bool} {byte : UInt8}
    (hbyte : isVisibleAscii byte = true) : isValidByte opaqueBytes byte = true := by
  rw [isValidByte, hbyte, Bool.true_or]

theorem fromStr_of_visible (opaqueBytes : Bool) {text : List Char}
    (htext : ∀ c ∈ text, isVisibleChar c = true) :
    fromStr opaqueBytes text = some (ofText text) := by
  have hall : (ofText text).all isVisibleAscii = true := by
    by_contra hnot
    have hnone : toStr (ofText text) = none := if_neg hnot
    rw [toStr_ofText htext] at hnone
    cases hnone
  refine if_pos (List.all_eq_true.mpr fun byte hbyte => ?_)
  exact isValidByte_of_visible (List.all_eq_true.mp hall byte hbyte)

theorem eq_ofText_of_fromStr {opaqueBytes : Bool} {text : List Char} {value : HeaderValue}
    (hvalue : fromStr opaqueBytes text = some value) : value = ofText text := by
  unfold fromStr at hvalue
  split at hvalue
  · exact (Option.some.inj hvalue).symm
  · cases hvalue

/-- The bytes before an ASCII character are the bytes of the characters before it. -/
theorem takeWhile_ofText (separator : Char) {byte : UInt8} (hbyte : byte.toNat = separator.toNat)
    (hascii : byte.toNat < 128) (text : List Char) :
    (ofText text).takeWhile (· ≠ byte) = ofText (text.takeWhile (· ≠ separator)) := by
  induction text with
  | nil => rfl
  | cons c rest ih =>
      by_cases hc : c = separator
      · subst hc
        have hencode : String.utf8EncodeChar c = [byte] := by
          rw [Utf8.utf8EncodeChar_ascii (by omega), Utf8.byte, ← hbyte, UInt8.ofNat_toNat]
        simp [hencode]
      · have hencode : ∀ other ∈ String.utf8EncodeChar c, decide (other ≠ byte) = true := by
          intro other hother
          refine decide_eq_true fun heq => hc ?_
          subst heq
          have heq := Utf8.toNat_eq_of_mem_utf8EncodeChar hascii hother
          exact Char.toNat_inj.mp (heq.symm.trans hbyte)
        rw [ofText_cons, List.takeWhile_append_of_pos hencode, ih]
        simp [hc]

end Modo.Http
