import Mathlib.Data.UInt
import Modo.Db.Migrate
import Modo.Lib.Folding
import Modo.Lib.Radix

/-!
# Checksums of migrations

`fnv1a_hex` folds the bytes into 64 bits and writes these in hexadecimal.  A step loses nothing: the
prime is odd, so the product can be undone (`fnv1aStep_cancels`).  Hence a file in which one byte
was changed has another checksum (`fnv1aHex_ne_of_edit`), and `migrate` does not take it for the
file that was applied (`migrateFile_of_edit`, `migrateFiles_ne_ok_of_edit`).
-/

namespace Modo.Migrations

/-! ## The hash -/

/-- A round of the loop of `fnv1a_hex`. -/
def fnv1aStep (hash : UInt64) (byte : UInt8) : UInt64 := (hash ^^^ byte.toUInt64) * 0x100000001b3

theorem fnv1a_eq (data : List UInt8) : fnv1a data = data.foldl fnv1aStep 0xcbf29ce484222325 := rfl

/-- The prime is odd, and has an inverse. -/
theorem isUnit_prime : IsUnit (0x100000001b3 : UInt64) :=
  IsUnit.of_mul_eq_one 0xce965057aff6957b (by decide)

/-- A step can be undone. -/
theorem fnv1aStep_cancels : Folding.Cancels fnv1aStep where
  state byte hash hash' heq := by
    have hxor : hash ^^^ byte.toUInt64 = hash' ^^^ byte.toUInt64 := by
      apply isUnit_prime.mul_left_injective
      exact heq
    exact (UInt64.xor_left_inj _).mp hxor
  element hash byte byte' heq := by
    have hxor : hash ^^^ byte.toUInt64 = hash ^^^ byte'.toUInt64 := by
      apply isUnit_prime.mul_left_injective
      exact heq
    exact UInt8.toUInt64_inj.mp ((UInt64.xor_right_inj _).mp hxor)

/-! ## The text of the hash -/

theorem digit_eq_iff : ∀ m < 16, ∀ n < 16, Hex.digit m = Hex.digit n ↔ m = n := by decide

/-- The sixteen digits of the hash. -/
theorem fnv1aHex_eq (data : List UInt8) :
    fnv1aHex data = String.ofList ((Radix.digits 16 16 (fnv1a data).toNat).map Hex.digit) := by
  rw [fnv1aHex, Radix.digits_eq_map_range, List.map_map]
  rfl

/-- The text says which hash it was. -/
theorem fnv1aHex_eq_iff (data other : List UInt8) :
    fnv1aHex data = fnv1aHex other ↔ fnv1a data = fnv1a other := by
  have hdigits : ∀ hash : UInt64, ∀ value ∈ Radix.digits 16 16 hash.toNat, value < 16 :=
    fun hash value => Radix.lt_of_mem_digits (by decide)
  have hbound : ∀ hash : UInt64, hash.toNat < 16 ^ 16 := fun hash => hash.toNat_lt
  rw [fnv1aHex_eq, fnv1aHex_eq, String.ofList_inj,
    Radix.map_eq_map_iff digit_eq_iff (hdigits _) (hdigits _),
    Radix.digits_eq_digits_iff (hbound _) (hbound _), UInt64.toNat_inj]

/-! ## Edits -/

/-- One byte was replaced by another one. -/
def Edited (data edited : List UInt8) : Prop :=
  ∃ before byte byte' after, data = before ++ byte :: after ∧ edited = before ++ byte' :: after ∧
    byte ≠ byte'

/-- Bytes behind the edit do not bring the hashes together again. -/
theorem Edited.fnv1a_ne {data edited : List UInt8} (hedited : Edited data edited) :
    fnv1a data ≠ fnv1a edited := by
  obtain ⟨before, byte, byte', after, rfl, rfl, hbyte⟩ := hedited
  intro heq
  apply hbyte
  rw [fnv1a_eq, fnv1a_eq] at heq
  exact (fnv1aStep_cancels.foldl_append_cons_eq_iff before after byte byte' _).mp heq

theorem Edited.fnv1aHex_ne {data edited : List UInt8} (hedited : Edited data edited) :
    fnv1aHex data ≠ fnv1aHex edited := by
  intro heq
  apply hedited.fnv1a_ne
  exact (fnv1aHex_eq_iff data edited).mp heq

/-- **A changed byte changes the checksum**: the step loses nothing of the running hash, and texts
of one length that differ in exactly one position have different checksums. -/
theorem fnv1aHex_ne_of_edit :
    (∀ byte, Function.Injective fun hash => fnv1aStep hash byte) ∧
    ∀ data edited : List UInt8, data.length = edited.length →
      (∃! i : ℕ, data[i]? ≠ edited[i]?) → fnv1aHex data ≠ fnv1aHex edited := by
  refine ⟨fnv1aStep_cancels.state, ?_⟩
  intro data edited hlength hedit
  have hedited : Edited data edited := Folding.exists_of_existsUnique_ne hlength hedit
  exact hedited.fnv1aHex_ne

/-- The second letter of a script. -/
theorem fnv1aHex_ne_second :
    fnv1aHex (Utf8.asBytes "abc") ≠ fnv1aHex (Utf8.asBytes "aXc") := by
  have hedit : ∃! i : ℕ, (Utf8.asBytes "abc")[i]? ≠ (Utf8.asBytes "aXc")[i]? := by
    refine ⟨1, by decide, ?_⟩
    intro i hi
    match i with
    | 0 => exact absurd rfl hi
    | 1 => rfl
    | 2 => exact absurd rfl hi
    | _ + 3 => exact absurd rfl hi
  exact fnv1aHex_ne_of_edit.2 _ _ rfl hedit

/-! ## Edited migrations -/

section Edits

variable {Schema : Type*} {sqlite : Sqlite Schema} {env : Env} {db : Database Schema}
  {file : File} {old : String}

/-- A round of the loop refuses a file that was edited after it was applied. -/
theorem migrateFile_of_edit (htable : db.migrations.isSome)
    (hselect : env.fails (.select file.name) = false)
    (hrecorded : recorded db file.name = some (fnv1aHex (Utf8.asBytes old)))
    (hedited : Edited (Utf8.asBytes old) (Utf8.asBytes file.sql)) :
    migrateFile sqlite env file db =
      .error (.checksumMismatch file.name (fnv1aHex (Utf8.asBytes old)) file.checksum) := by
  rw [migrateFile, hselect, if_neg Bool.false_ne_true, select_eq_some htable, hrecorded]
  exact if_pos hedited.fnv1aHex_ne

/-- No run over the files ends well when one of them was edited, wherever it stands. -/
theorem migrateFiles_ne_ok_of_edit {files : List File} (htable : db.migrations.isSome)
    (hdistinct : (files.map File.name).Nodup)
    (halone : ∀ file ∈ files, LeavesTracking sqlite file.sql) (hfile : file ∈ files)
    (hrecorded : recorded db file.name = some (fnv1aHex (Utf8.asBytes old)))
    (hedited : Edited (Utf8.asBytes old) (Utf8.asBytes file.sql)) :
    (migrateFiles sqlite env files db).1 ≠ .ok () := by
  obtain ⟨before, after, hwent⟩ := migrateFiles_went sqlite env htable hdistinct halone
  intro hok
  have hbefore : file ∈ before := by
    rw [hwent.split, hwent.completed hok, List.append_nil] at hfile
    exact hfile
  -- a file that was passed has the checksum that was recorded
  apply hedited.fnv1aHex_ne
  exact hwent.matched file hbefore _ hrecorded

end Edits

end Modo.Migrations
