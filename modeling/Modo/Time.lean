import Mathlib.Data.Int.Basic
import Modo.Lib.Decimal

/-!
# Instants and the text SQLite compares

Every timestamp the program stores is a `DateTime<Utc>` written with
`to_rfc3339` into a `TEXT` column, and every SQL comparison of timestamps is a
comparison of these texts.  The model keeps the instant in the row and compares
the way the statement does: `DateTime.textLE` and `DateTime.textLT` compare the
two texts byte by byte.

The texts are chrono's `AutoSi` form: 0, 3, 6 or 9 fractional digits, then
`+00:00`; a year outside `0..=9999` is written with its sign.
-/

namespace Modo

/-- `chrono::DateTime<Utc>`: seconds since the epoch and the nanoseconds within
the second, which exceed a second only in a leap second. -/
structure DateTime where
  secs : ℤ
  nanos : ℕ
  valid : nanos < 1_000_000_000 ∨ nanos < 2_000_000_000 ∧ secs % 60 = 59
  deriving DecidableEq

open Decimal (digits)

namespace DateTime

/-- The instant of a whole number of seconds since the epoch. -/
def ofSecs (secs : ℤ) : DateTime := ⟨secs, 0, by omega⟩

/-- `t + chrono::Duration::seconds(n)`.  It is only applied to clock readings,
which are never inside a leap second. -/
def addSeconds (t : DateTime) (n : ℤ) : DateTime :=
  ⟨t.secs + n, t.nanos % 1_000_000_000, by omega⟩

/-- Chronological order. -/
instance : LE DateTime :=
  ⟨fun a b => a.secs < b.secs ∨ a.secs = b.secs ∧ a.nanos ≤ b.nanos⟩

instance : LT DateTime :=
  ⟨fun a b => a.secs < b.secs ∨ a.secs = b.secs ∧ a.nanos < b.nanos⟩

theorem le_def {a b : DateTime} :
    a ≤ b ↔ a.secs < b.secs ∨ a.secs = b.secs ∧ a.nanos ≤ b.nanos := Iff.rfl

theorem lt_def {a b : DateTime} :
    a < b ↔ a.secs < b.secs ∨ a.secs = b.secs ∧ a.nanos < b.nanos := Iff.rfl

instance : Preorder DateTime where
  le_refl a := le_def.mpr (Or.inr ⟨rfl, le_refl a.nanos⟩)
  le_trans a b c hab hbc := by
    rw [le_def] at hab hbc ⊢
    omega
  lt_iff_le_not_ge a b := by
    rw [lt_def, le_def, le_def]
    omega

instance (a b : DateTime) : Decidable (a ≤ b) := decidable_of_iff _ le_def.symm

instance (a b : DateTime) : Decidable (a < b) := decidable_of_iff _ lt_def.symm

/-! ## The text -/

/-- The year inside a cycle of 400 years, of a day counted from its beginning. -/
def yearOfEra (dayOfEra : ℕ) : ℕ :=
  (dayOfEra - dayOfEra / 1460 + dayOfEra / 36524 - dayOfEra / 146096) / 365

/-- The first day of a year of the cycle. -/
def yearStart (year : ℕ) : ℕ := 365 * year + year / 4 - year / 100

/-- Year, month and day of a day number counted from the epoch, in the
proleptic Gregorian calendar.  Years are counted from March inside a cycle of
400 years, so that the leap day is the last day of a year. -/
def civil (day : ℤ) : ℤ × ℕ × ℕ :=
  let shifted := day + 719468
  let dayOfEra := (shifted % 146097).toNat
  let dayOfYear := dayOfEra - yearStart (yearOfEra dayOfEra)
  let month := (5 * dayOfYear + 2) / 153
  let year := yearOfEra dayOfEra + shifted / 146097 * 400
  (if month < 10 then year else year + 1, if month < 10 then month + 3 else month - 9,
    dayOfYear - (153 * month + 2) / 5 + 1)

/-- The year: four digits, or a sign and at least four digits. -/
def yearText (year : ℤ) : List Char :=
  if 0 ≤ year ∧ year ≤ 9999 then digits 4 year.toNat
  else (if year < 0 then '-' else '+') ::
    (if year.natAbs ≤ 9999 then digits 4 year.natAbs else (Nat.toDigits 10 year.natAbs))

/-- The fraction of a second in the `AutoSi` form. -/
def fractionText (nanos : ℕ) : List Char :=
  if nanos = 0 then []
  else if nanos % 1_000_000 = 0 then '.' :: digits 3 (nanos / 1_000_000)
  else if nanos % 1_000 = 0 then '.' :: digits 6 (nanos / 1_000)
  else '.' :: digits 9 nanos

/-- `to_rfc3339`. -/
def toRfc3339 (t : DateTime) : List Char :=
  let date := civil (t.secs / 86400)
  let second := (t.secs % 86400).toNat
  -- a leap second is written as second 60
  let leap := t.nanos / 1_000_000_000
  yearText date.1 ++ '-' :: digits 2 date.2.1 ++ '-' :: digits 2 date.2.2 ++
    'T' :: digits 2 (second / 3600) ++ ':' :: digits 2 (second / 60 % 60) ++
    ':' :: digits 2 (second % 60 + leap) ++ fractionText (t.nanos % 1_000_000_000) ++
    ['+', '0', '0', ':', '0', '0']

/-- `a <= b` on the stored texts. -/
def textLE (a b : DateTime) : Prop := ¬ toRfc3339 b < toRfc3339 a

/-- `a < b` on the stored texts. -/
def textLT (a b : DateTime) : Prop := toRfc3339 a < toRfc3339 b

instance : DecidableRel textLE := fun a b =>
  inferInstanceAs (Decidable (¬ toRfc3339 b < toRfc3339 a))

instance : DecidableRel textLT := fun a b =>
  inferInstanceAs (Decidable (toRfc3339 a < toRfc3339 b))

end DateTime

end Modo
