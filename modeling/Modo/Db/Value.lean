import Mathlib.Algebra.Order.Ring.Rat
import Mathlib.Data.Char
import Mathlib.Data.List.Lex
import Mathlib.Data.Sum.Order
import Mathlib.Order.WithBot

/-!
# SQLite values

The values of `libsql::Value`, the order SQLite puts them in and its comparisons.

Values are ordered by storage class: `NULL` first, then numbers, texts and blobs.
Integers and reals compare as numbers, texts by their code points (the `BINARY`
collation), blobs by their bytes.  A comparison with `NULL` has no truth value.
Before a column is compared with a bound parameter, the affinity of the column is
applied to the parameter.

What SQLite computes from a text or a float is a parameter (`Sqlite`): which
texts read as numbers, the text of a real, and `LIKE`.
-/

namespace Modo.Db

/-- The numbers a float can be: rationals and two infinities. -/
abbrev Extended := WithBot (WithTop ℚ)

/-- An `f64`. -/
inductive F64 where
  | nan
  | number (value : Extended)
  deriving DecidableEq

/-- `libsql::Value`. -/
inductive Value where
  | null
  | integer (value : Int64)
  | real (value : F64)
  | text (value : String)
  | blob (value : List UInt8)
  deriving DecidableEq

/-- The errors of the queries, as the constructors of `crate::Error`. -/
inductive Error where
  | badRequest (message : String)
  | notFound (message : String)
  | internal (message : String)
  deriving DecidableEq

/-- The affinity of a column. -/
inductive Affinity where
  | blob
  | text
  | numeric
  | integer
  | real
  deriving DecidableEq

/-- The affinity turns texts that read as numbers into numbers. -/
def Affinity.isNumeric : Affinity → Bool
  | numeric | integer | real => true
  | blob | text => false

/-- Functions of SQLite. -/
structure Sqlite where
  /-- The number that a text reads as, under a numeric affinity. -/
  numeric : String → Option Extended
  /-- Integers are read back from their decimal texts. -/
  numeric_integer : ∀ n : Int64, numeric (toString n.toInt) = some ((n.toInt : ℚ) : WithTop ℚ)
  /-- The text of a real. -/
  realText : Extended → String
  /-- `LIKE`, for operands that are not `NULL`. -/
  like : Value → Value → Bool

/-! ## Integers as texts -/

/-- One or more decimal digits. -/
def parseDigits (chars : List Char) : Option ℕ :=
  if chars ≠ [] ∧ chars.all Char.isDigit then some (Nat.ofDigitChars 10 chars 0) else none

/-- Digits with an optional sign. -/
def parseInt : List Char → Option ℤ
  | '-' :: digits => (parseDigits digits).map fun n : ℕ => -(n : ℤ)
  | '+' :: digits => (parseDigits digits).map fun n : ℕ => (n : ℤ)
  | digits => (parseDigits digits).map fun n : ℕ => (n : ℤ)

/-- `str::parse::<i64>`. -/
def parseI64 (s : String) : Option Int64 :=
  (parseInt s.toList).bind fun n =>
    if -2 ^ 63 ≤ n ∧ n < 2 ^ 63 then some (Int64.ofInt n) else none

theorem parseDigits_toDigits (n : ℕ) : parseDigits (Nat.toDigits 10 n) = some n := by
  have hdigits : (Nat.toDigits 10 n).all Char.isDigit = true := by
    rw [List.all_eq_true]
    exact fun c hc => Nat.isDigit_of_mem_toDigits (by decide) (by decide) hc
  rw [parseDigits, if_pos ⟨Nat.toDigits_ne_nil, hdigits⟩, Nat.ofDigitChars_ten_toDigits]

theorem parseInt_repr (n : ℤ) : parseInt n.repr.toList = some n := by
  rw [Int.repr_eq_if]
  split_ifs with hn
  · rw [Nat.toList_repr]
    have hfirst : ∀ c ∈ Nat.toDigits 10 n.toNat, c ≠ '-' ∧ c ≠ '+' := by
      intro c hc
      have hdigit : c.isDigit = true := Nat.isDigit_of_mem_toDigits (by decide) (by decide) hc
      constructor <;> rintro rfl <;> exact absurd hdigit (by decide)
    unfold parseInt
    split
    · next heq => exact absurd rfl (hfirst '-' (by simp [heq])).1
    · next heq => exact absurd rfl (hfirst '+' (by simp [heq])).2
    · rw [parseDigits_toDigits, Option.map_some, Int.toNat_of_nonneg hn]
  · rw [String.toList_append, Nat.toList_repr]
    have hneg : ((-n).toNat : ℤ) = -n := Int.toNat_of_nonneg (by omega)
    show (parseDigits (Nat.toDigits 10 (-n).toNat)).map (fun m : ℕ => -(m : ℤ)) = some n
    rw [parseDigits_toDigits, Option.map_some, hneg, Int.neg_neg]

/-- An integer is parsed back from its text. -/
theorem parseI64_toString (n : Int64) : parseI64 (toString n.toInt) = some n := by
  have hlower := n.le_toInt
  have hupper := n.toInt_lt
  rw [parseI64, Int.toString_eq_repr, parseInt_repr, Option.bind_some,
    if_pos ⟨hlower, hupper⟩, Int64.ofInt_toInt]

/-- A SQLite that reads the integers only. -/
def integerSqlite : Sqlite where
  numeric s := (parseI64 s).map fun n : Int64 => (((n.toInt : ℚ) : WithTop ℚ) : Extended)
  numeric_integer n := by
    rw [parseI64_toString]
    rfl
  realText _ := ""
  like a b := decide (a = b)

/-! ## Order -/

/-- What values are ordered by; `⊥` is `NULL`. -/
abbrev SortKey := WithBot (Extended ⊕ₗ (List Char ⊕ₗ List ℕ))

namespace SortKey

def number (value : Extended) : SortKey := WithBot.some (toLex (.inl value))

def text (value : List Char) : SortKey := WithBot.some (toLex (.inr (toLex (.inl value))))

def bytes (value : List ℕ) : SortKey := WithBot.some (toLex (.inr (toLex (.inr value))))

end SortKey

namespace Value

def key : Value → SortKey
  | null | real .nan => ⊥
  | integer value => .number ((value.toInt : ℚ) : WithTop ℚ)
  | real (.number value) => .number value
  | text value => .text value.toList
  | blob value => .bytes (value.map UInt8.toNat)

/-- `NULL`; a NaN is stored and bound as `NULL`. -/
def isNull : Value → Bool
  | null | real .nan => true
  | _ => false

theorem isNull_iff (value : Value) : value.isNull = true ↔ value.key = ⊥ := by
  cases value with
  | real value => cases value <;> simp [isNull, key, SortKey.number]
  | _ => simp [isNull, key, SortKey.number, SortKey.text, SortKey.bytes]

end Value

/-! ## Comparison -/

/-- The value a parameter is compared as. -/
def Affinity.apply (sqlite : Sqlite) (affinity : Affinity) (value : Value) : Value :=
  match value with
  | .text s =>
      if affinity.isNumeric then
        match sqlite.numeric s with
        | some x => .real (.number x)
        | none => .text s
      else .text s
  | .integer n => if affinity = .text then .text (toString n.toInt) else .integer n
  | .real (.number x) =>
      if affinity = .text then .text (sqlite.realText x) else .real (.number x)
  | other => other

/-- The comparison operators. -/
inductive Comparison where
  | eq
  | ne
  | gt
  | ge
  | lt
  | le
  deriving DecidableEq

/-- The operator on values that are not `NULL`. -/
def Comparison.holds : Comparison → SortKey → SortKey → Bool
  | eq, a, b => decide (a = b)
  | ne, a, b => decide (a ≠ b)
  | gt, a, b => decide (b < a)
  | ge, a, b => decide (b ≤ a)
  | lt, a, b => decide (a < b)
  | le, a, b => decide (a ≤ b)

/-- `column op ?`; `none` is the truth value `NULL`. -/
def Comparison.eval (sqlite : Sqlite) (op : Comparison) (affinity : Affinity)
    (stored param : Value) : Option Bool :=
  let other := affinity.apply sqlite param
  if stored.isNull || other.isNull then none else some (op.holds stored.key other.key)

/-- A comparison is true when both sides are there and the operator holds. -/
theorem Comparison.eval_eq_true {sqlite : Sqlite} {op : Comparison} {affinity : Affinity}
    {stored param : Value} :
    op.eval sqlite affinity stored param = some true ↔
      stored.key ≠ ⊥ ∧ (affinity.apply sqlite param).key ≠ ⊥ ∧
        op.holds stored.key (affinity.apply sqlite param).key = true := by
  rw [Ne, Ne, ← stored.isNull_iff, ← (affinity.apply sqlite param).isNull_iff]
  unfold eval
  cases stored.isNull with
  | true => simp
  | false => cases hparam : (affinity.apply sqlite param).isNull <;> simp [hparam]

end Modo.Db
