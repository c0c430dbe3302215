import Modo.Lib.Utf8

/-!
# Texts by byte positions

Slices of a text between byte positions, which fail inside of a character, and the bytes that a
scanner looks at.  An ASCII byte is seen exactly where its character stands, so a scanner that goes
from one to the next stays between characters.
-/

namespace Utf8

/-- The bytes of a text. -/
def bytes (text : List Char) : List UInt8 := text.flatMap String.utf8EncodeChar

/-- The byte of an ASCII character. -/
def byte (c : Char) : UInt8 := UInt8.ofNat c.toNat

/-- `&text[start..]`. -/
def sliceFrom (text : List Char) (start : ℕ) : Option (List Char) :=
  (splitAt start text).map Prod.snd

/-- `&text[..stop]`. -/
def sliceTo (text : List Char) (stop : ℕ) : Option (List Char) := (splitAt stop text).map Prod.fst

/-- `&text[start..stop]`, for a position behind the first one. -/
def slice (text : List Char) (start stop : ℕ) : Option (List Char) :=
  (sliceFrom text start).bind fun rest => sliceTo rest (stop - start)

/-- `str::find` of a character. -/
def find (c : Char) (text : List Char) : Option ℕ :=
  (splitOnce c text).map fun (before, _) => byteLength before

/-! ## Slices between characters -/

theorem sliceFrom_append (before after : List Char) :
    sliceFrom (before ++ after) (byteLength before) = some after := by
  rw [sliceFrom, splitAt_append]
  rfl

theorem sliceTo_append (before after : List Char) :
    sliceTo (before ++ after) (byteLength before) = some before := by
  rw [sliceTo, splitAt_append]
  rfl

theorem slice_append (before middle after : List Char) :
    slice (before ++ (middle ++ after)) (byteLength before)
      (byteLength before + byteLength middle) = some middle := by
  rw [slice, sliceFrom_append, Option.bind_some, Nat.add_sub_cancel_left, sliceTo_append]

theorem find_append {c : Char} {before : List Char} (hbefore : c ∉ before) (after : List Char) :
    find c (before ++ c :: after) = some (byteLength before) := by
  rw [find, splitOnce_eq_some.mpr ⟨rfl, hbefore⟩]
  rfl

/-! ## The bytes at a position -/

@[simp] theorem bytes_nil : bytes [] = [] := rfl

theorem bytes_cons (c : Char) (text : List Char) :
    bytes (c :: text) = String.utf8EncodeChar c ++ bytes text := rfl

@[simp] theorem bytes_append (first second : List Char) :
    bytes (first ++ second) = bytes first ++ bytes second := List.flatMap_append

theorem length_bytes (text : List Char) : (bytes text).length = byteLength text := by
  induction text with
  | nil => rfl
  | cons c rest ih =>
      rw [bytes_cons, List.length_append, String.length_utf8EncodeChar, ih, byteLength_cons]

theorem drop_bytes (before after : List Char) :
    (bytes (before ++ after)).drop (byteLength before) = bytes after := by
  rw [bytes_append, ← length_bytes, List.drop_left]

theorem getElem?_bytes (before after : List Char) (offset : ℕ) :
    (bytes (before ++ after))[byteLength before + offset]? = (bytes after)[offset]? := by
  rw [← List.getElem?_drop, drop_bytes]

theorem utf8EncodeChar_ascii {c : Char} (hc : c.toNat < 128) :
    String.utf8EncodeChar c = [byte c] := by
  have hle : c.toNat ≤ 127 := by omega
  simp [String.utf8EncodeChar, byte, hle]

theorem bytes_cons_ascii {c : Char} (hc : c.toNat < 128) (text : List Char) :
    bytes (c :: text) = byte c :: bytes text := by
  rw [bytes_cons, utf8EncodeChar_ascii hc, List.singleton_append]

/-- The first byte of a text. -/
theorem exists_bytes_cons (c : Char) (text : List Char) :
    ∃ first rest, bytes (c :: text) = first :: rest ∧ first ∈ String.utf8EncodeChar c := by
  obtain ⟨first, rest, hchar⟩ :=
    List.exists_cons_of_ne_nil (String.utf8EncodeChar_ne_nil (c := c))
  refine ⟨first, rest ++ bytes text, ?_, by simp [hchar]⟩
  rw [bytes_cons, hchar, List.cons_append]

theorem toNat_byte {c : Char} (hc : c.toNat < 128) : (byte c).toNat = c.toNat :=
  toNat_ofNat_of_lt (by omega)

/-- The byte of an ASCII character is part of no other one. -/
theorem eq_of_byte_mem {c other : Char} (hc : c.toNat < 128)
    (hmem : byte c ∈ String.utf8EncodeChar other) : other = c := by
  have hbyte := toNat_byte hc
  have hsame := toNat_eq_of_mem_utf8EncodeChar (by omega) hmem
  exact Char.toNat_inj.mp (hsame.symm.trans hbyte)

/-- An ASCII byte begins a text exactly when its character does. -/
theorem head?_bytes_iff {c : Char} (hc : c.toNat < 128) (text : List Char) :
    (bytes text).head? = some (byte c) ↔ text.head? = some c := by
  cases text with
  | nil => simp
  | cons other text =>
      obtain ⟨first, rest, hbytes, hmem⟩ := exists_bytes_cons other text
      rw [hbytes, List.head?_cons, List.head?_cons, Option.some.injEq, Option.some.injEq]
      constructor
      · rintro rfl
        exact eq_of_byte_mem hc hmem
      · rintro rfl
        rw [bytes_cons_ascii hc, List.cons.injEq] at hbytes
        exact hbytes.1.symm

/-- A run of an ASCII byte is a run of its character. -/
theorem length_takeWhile_bytes {c : Char} (hc : c.toNat < 128) (text : List Char) :
    ((bytes text).takeWhile (· == byte c)).length = (text.takeWhile (· == c)).length := by
  induction text with
  | nil => rfl
  | cons other text ih =>
      by_cases hother : other = c
      · subst hother
        rw [bytes_cons_ascii hc, List.takeWhile_cons_of_pos (by simp),
          List.takeWhile_cons_of_pos (by simp), List.length_cons, List.length_cons, ih]
      · obtain ⟨first, rest, hbytes, hmem⟩ := exists_bytes_cons other text
        have hfirst : first ≠ byte c := by
          rintro rfl
          exact hother (eq_of_byte_mem hc hmem)
        rw [hbytes, List.takeWhile_cons_of_neg (by simp [hfirst]),
          List.takeWhile_cons_of_neg (by simp [hother])]
        rfl

/-- A run of ASCII characters is as long in bytes. -/
theorem byteLength_takeWhile {c : Char} (hc : c.toNat < 128) (text : List Char) :
    byteLength (text.takeWhile (· == c)) = (text.takeWhile (· == c)).length := by
  apply byteLength_of_ascii
  intro other hother
  have hsame : other = c := by simpa using List.mem_takeWhile_imp hother
  rw [hsame, Char.utf8Size_eq_one_iff, UInt32.le_iff_toNat_le]
  exact Nat.le_of_lt_succ hc

end Utf8
