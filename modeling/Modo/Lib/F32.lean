import Mathlib
import Modo.Lib.Radix
import Modo.Lib.StableSort

/-!
# Single precision

What parsing and comparing an `f32` needs: a number, which may be infinite, or no number at all.
The finite numbers are multiples of the smallest one, `2 ^ -149`, and are counted in it.  The two
zeros compare equal and are one here.

`partial_cmp` says nothing about what is no number.  `totalPreorderOn_iff` says when the comparator
that takes this for equality is a total preorder.
-/

/-- An `f32`. -/
inductive F32 where
  | nan
  | number (x : WithBot (WithTop ℤ))
  deriving DecidableEq

namespace F32

def finite (x : ℤ) : F32 := .number ((x : WithTop ℤ) : WithBot (WithTop ℤ))

def zero : F32 := finite 0

def half : F32 := finite (2 ^ 148)

def one : F32 := finite (2 ^ 149)

def infinity (negative : Bool) : F32 := .number (if negative then ⊥ else ⊤)

/-! ## Parsing -/

/-- The nearest integer to a fraction, and the even one of two. -/
def nearestEven (numerator denominator : ℕ) : ℕ :=
  let below := numerator / denominator
  let rest := 2 * (numerator % denominator)
  if rest < denominator ∨ rest = denominator ∧ below % 2 = 0 then below else below + 1

/-- The nearest `f32` to a fraction. -/
def round (negative : Bool) (numerator denominator : ℕ) : F32 :=
  let scaled := numerator * 2 ^ 149
  -- a mantissa has 24 bits, and the subnormal numbers have no finer last bit
  let lastBit := 2 ^ ((scaled / denominator).log2 - 23)
  let magnitude := nearestEven scaled (denominator * lastBit) * lastBit
  if 2 ^ 128 * 2 ^ 149 ≤ magnitude then infinity negative
  else finite (if negative then -magnitude else magnitude)

/-- The rest behind an optional sign. -/
def dropSign (text : List Char) : List Char :=
  if text.head? = some '+' ∨ text.head? = some '-' then text.tail else text

/-- `( 'e' Sign? Digit+ )?`, in either case. -/
def parseExponent : List Char → Option ℤ
  | [] => some 0
  | c :: text =>
      let digits := dropSign text
      if (c = 'e' ∨ c = 'E') ∧ digits ≠ [] ∧ digits.all Radix.isDigit = true then
        let n : ℤ := Nat.ofDigitChars 10 digits 0
        some (if text.head? = some '-' then -n else n)
      else none

/-- `( Digit+ | Digit+ '.' Digit* | Digit* '.' Digit+ ) Exp?`. -/
def parseNumber (negative : Bool) (text : List Char) : Option F32 :=
  let whole := text.takeWhile Radix.isDigit
  let rest := text.dropWhile Radix.isDigit
  let fraction := if rest.head? = some '.' then rest.tail.takeWhile Radix.isDigit else []
  let behind := if rest.head? = some '.' then rest.tail.dropWhile Radix.isDigit else rest
  if whole = [] ∧ fraction = [] then none
  else
    (parseExponent behind).map fun exponent =>
      let digits := Nat.ofDigitChars 10 (whole ++ fraction) 0
      let scale : ℤ := exponent - fraction.length
      round negative (digits * 10 ^ scale.toNat) (10 ^ (-scale).toNat)

/-- `inf`, `infinity` and `nan`, in either case. -/
def parseName (negative : Bool) (text : List Char) : Option F32 :=
  let name := text.map Char.toLower
  if name = "nan".toList then some .nan
  else if name = "inf".toList ∨ name = "infinity".toList then some (infinity negative)
  else none

/-- `str::parse::<f32>`. -/
def parse (text : List Char) : Option F32 :=
  let negative : Bool := text.head? = some '-'
  (parseNumber negative (dropSign text)).or (parseName negative (dropSign text))

example : parse "+.5E+1".toList = some (finite (5 * 2 ^ 149)) := by decide

/-! ## Comparing -/

/-- The order of the numbers, as one that can be computed. -/
instance : Ord (WithBot (WithTop ℤ)) := WithBot.linearOrder.toOrd

/-- `partial_cmp`. -/
def partialCmp : F32 → F32 → Option Ordering
  | .number x, .number y => some (compare x y)
  | _, _ => none

/-- Both are numbers, and the first is less. -/
def Lt (a b : F32) : Prop := partialCmp a b = some .lt

instance : DecidableRel Lt := fun a b => inferInstanceAs (Decidable (partialCmp a b = some .lt))

/-- `f32::clamp`. -/
def clamp (x min max : F32) : F32 :=
  let x := if Lt x min then min else x
  if Lt max x then max else x

theorem lt_iff {a b : F32} : Lt a b ↔ ∃ x y, a = .number x ∧ b = .number y ∧ x < y := by
  constructor
  · intro h
    cases a with
    | nan => cases h
    | number x =>
        cases b with
        | nan => cases h
        | number y => exact ⟨x, y, rfl, rfl, compare_lt_iff_lt.mp (Option.some.inj h)⟩
  · rintro ⟨x, y, rfl, rfl, hlt⟩
    exact congrArg some (compare_lt_iff_lt.mpr hlt)

@[simp] theorem lt_number {x y : WithBot (WithTop ℤ)} : Lt (.number x) (.number y) ↔ x < y := by
  rw [Lt, partialCmp, Option.some_inj, compare_lt_iff_lt]

theorem partialCmp_swap (a b : F32) : partialCmp b a = (partialCmp a b).map Ordering.swap := by
  cases a with
  | nan => cases b <;> rfl
  | number x =>
      cases b with
      | nan => rfl
      | number y => exact congrArg some (Std.OrientedCmp.eq_swap)

/-- `b.partial_cmp(a).unwrap_or(Equal)`: the greater first. -/
def descending (a b : F32) : Ordering := (partialCmp b a).getD .eq

theorem descending_swap (a b : F32) : descending b a = (descending a b).swap := by
  rw [descending, descending, partialCmp_swap b a]
  cases partialCmp b a <;> rfl

theorem descending_gt_iff {a b : F32} : descending a b = .gt ↔ Lt a b := by
  rw [descending, partialCmp_swap a b, Lt]
  cases hcmp : partialCmp a b with
  | none => simp
  | some order => cases order <;> simp

theorem descending_lt_iff {a b : F32} : descending a b = .lt ↔ Lt b a := by
  rw [← descending_gt_iff, descending_swap a b]
  cases descending a b <;> simp

/-- What is no number stands beside two different numbers. -/
def Clashes (values : List F32) : Prop :=
  .nan ∈ values ∧ ∃ a ∈ values, ∃ b ∈ values, Lt a b

instance : DecidablePred Clashes := fun values =>
  inferInstanceAs (Decidable (.nan ∈ values ∧ ∃ a ∈ values, ∃ b ∈ values, Lt a b))

/-- The comparator is a total preorder exactly without a clash. -/
theorem totalPreorderOn_iff {α : Type*} (value : α → F32) (items : List α) :
    Sorting.TotalPreorderOn (fun a b => descending (value a) (value b)) items ↔
      ¬ Clashes (items.map value) := by
  simp only [Clashes, List.mem_map]
  constructor
  · rintro horder ⟨⟨middle, hmiddle, hnan⟩, _, ⟨a, ha, rfl⟩, _, ⟨b, hb, rfl⟩, hlt⟩
    -- everything is equal to what is no number
    refine horder.trans a ha middle hmiddle b hb ?_ ?_ (descending_gt_iff.mpr hlt)
    · rw [hnan, Ne, descending_gt_iff, lt_iff]
      rintro ⟨_, _, _, hnumber, _⟩
      cases hnumber
    · rw [hnan, Ne, descending_gt_iff, lt_iff]
      rintro ⟨_, _, hnumber, _⟩
      cases hnumber
  · intro hclash
    refine ⟨fun a _ b _ => descending_swap _ _, ?_⟩
    intro a ha b hb c hc hab hbc hac
    rw [Ne, descending_gt_iff] at hab hbc
    rw [descending_gt_iff] at hac
    cases hvalue : value b with
    | nan => exact hclash ⟨⟨b, hb, hvalue⟩, _, ⟨a, ha, rfl⟩, _, ⟨c, hc, rfl⟩, hac⟩
    | number y =>
        obtain ⟨x, z, hx, hz, hlt⟩ := lt_iff.mp hac
        rw [hx, hvalue, lt_number, not_lt] at hab
        rw [hvalue, hz, lt_number, not_lt] at hbc
        exact absurd (hbc.trans hab) (not_le.mpr hlt)

end F32
