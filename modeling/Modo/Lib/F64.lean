import Mathlib
import Modo.Lib.F32

/-!
# Double precision

Sums, products and quotients of `f64`s are those of the rationals, rounded to the nearest number
with 53 bits.  What is no finite number, `NaN` or infinite, is not told apart.

A drawing has its coordinates at multiples of half a unit.  As long as they have no more than 53
bits, nothing is rounded (`units_add` and its like).
-/

/-- An `f64`. -/
inductive F64 where
  | notFinite
  | number (x : ℚ)
  deriving DecidableEq

namespace F64

/-! ## Rounding -/

/-- The nearest integer, and the even one of two. -/
def nearestEven (x : ℚ) : ℤ :=
  let rest := x - ⌊x⌋
  if rest < 1 / 2 ∨ rest = 1 / 2 ∧ ⌊x⌋ % 2 = 0 then ⌊x⌋ else ⌊x⌋ + 1

/-- The exponent of the last bit of a mantissa. -/
def lastBit (x : ℚ) : ℤ := max (Int.log 2 |x| - 52) (-1074)

/-- The nearest number with a mantissa of 53 bits. -/
def round (x : ℚ) : ℚ := nearestEven (x / 2 ^ lastBit x) * 2 ^ lastBit x

/-- The nearest `f64`. -/
def ofRat (x : ℚ) : F64 := if |round x| < 2 ^ 1024 then .number (round x) else .notFinite

theorem nearestEven_intCast (n : ℤ) : nearestEven n = n := by
  rw [nearestEven]
  simp

theorem floor_le_nearestEven (x : ℚ) : ⌊x⌋ ≤ nearestEven x := by
  dsimp only [nearestEven]
  split_ifs <;> omega

theorem nearestEven_le_floor_add_one (x : ℚ) : nearestEven x ≤ ⌊x⌋ + 1 := by
  dsimp only [nearestEven]
  split_ifs <;> omega

theorem nearestEven_mono {x y : ℚ} (hle : x ≤ y) : nearestEven x ≤ nearestEven y := by
  rcases (Int.floor_le_floor hle).lt_or_eq with hlt | heq
  · calc nearestEven x ≤ ⌊x⌋ + 1 := nearestEven_le_floor_add_one x
      _ ≤ ⌊y⌋ := hlt
      _ ≤ nearestEven y := floor_le_nearestEven y
  · dsimp only [nearestEven]
    rw [heq]
    split_ifs with hx hy hy
    · exact le_rfl
    · exact Int.le_add_one le_rfl
    · -- the rest of the greater one is at least that of the other
      refine absurd ?_ hx
      rcases hy with hy | ⟨hy, heven⟩
      · exact .inl (by linarith)
      · rcases (show x - ⌊y⌋ ≤ 1 / 2 by linarith).lt_or_eq with hlt | hhalf
        · exact .inl hlt
        · exact .inr ⟨hhalf, heven⟩
    · exact le_rfl

theorem two_zpow_pos (e : ℤ) : (0 : ℚ) < 2 ^ e := zpow_pos two_pos e

theorem two_zpow_add (e : ℤ) (d : ℕ) : (2 : ℚ) ^ (e + d) = ((2 ^ d : ℤ) : ℚ) * 2 ^ e := by
  rw [zpow_add₀ two_ne_zero, zpow_natCast, mul_comm]
  push_cast
  rfl

theorem lastBit_mono {x y : ℚ} (hx : 0 < x) (hle : x ≤ y) : lastBit x ≤ lastBit y := by
  rw [lastBit, lastBit, abs_of_pos hx, abs_of_pos (hx.trans_le hle)]
  exact max_le_max_right _ (sub_le_sub_right (Int.log_mono_right hx hle) 52)

@[simp] theorem round_zero : round 0 = 0 := by
  rw [round, zero_div, ← Int.cast_zero, nearestEven_intCast, Int.cast_zero, zero_mul]

theorem round_le_two_zpow {x : ℚ} {n : ℤ} (hx : x ≤ 2 ^ n) (hbit : lastBit x ≤ n) :
    round x ≤ 2 ^ n := by
  obtain ⟨d, rfl⟩ := Int.le.dest hbit
  rw [two_zpow_add] at hx ⊢
  refine mul_le_mul_of_nonneg_right ?_ (two_zpow_pos _).le
  rw [Int.cast_le, ← nearestEven_intCast (2 ^ d)]
  exact nearestEven_mono ((div_le_iff₀ (two_zpow_pos _)).mpr hx)

theorem two_zpow_le_round {x : ℚ} {n : ℤ} (hx : 2 ^ n ≤ x) (hbit : lastBit x ≤ n) :
    2 ^ n ≤ round x := by
  obtain ⟨d, rfl⟩ := Int.le.dest hbit
  rw [two_zpow_add] at hx ⊢
  refine mul_le_mul_of_nonneg_right ?_ (two_zpow_pos _).le
  rw [Int.cast_le, ← nearestEven_intCast (2 ^ d)]
  exact nearestEven_mono ((le_div_iff₀ (two_zpow_pos _)).mpr hx)

theorem round_nonneg {x : ℚ} (hx : 0 ≤ x) : 0 ≤ round x := by
  have hzero : nearestEven ((0 : ℤ) : ℚ) ≤ nearestEven (x / 2 ^ lastBit x) :=
    nearestEven_mono (by rw [Int.cast_zero]; exact div_nonneg hx (two_zpow_pos _).le)
  rw [nearestEven_intCast] at hzero
  exact mul_nonneg (Int.cast_nonneg hzero) (two_zpow_pos _).le

theorem round_mono {x y : ℚ} (hx : 0 ≤ x) (hle : x ≤ y) : round x ≤ round y := by
  rcases hx.eq_or_lt with rfl | hx
  · rw [round_zero]
    exact round_nonneg hle
  have hy := hx.trans_le hle
  rcases (lastBit_mono hx hle).lt_or_eq with hlt | heq
  · -- a power of two lies between them, and both last bits divide it
    have hxbit : Int.log 2 x - 52 ≤ lastBit x := by
      rw [lastBit, abs_of_pos hx]
      exact le_max_left _ _
    have hybit : lastBit y = Int.log 2 y - 52 := by
      have hlow : -1074 ≤ lastBit x := le_max_right _ _
      have heq : lastBit y = max (Int.log 2 y - 52) (-1074) := by rw [lastBit, abs_of_pos hy]
      omega
    have hxpower : x < ((2 : ℕ) : ℚ) ^ Int.log 2 y :=
      (Int.lt_zpow_iff_log_lt one_lt_two hx).mpr (by omega)
    have hypower : ((2 : ℕ) : ℚ) ^ Int.log 2 y ≤ y := Int.zpow_log_le_self one_lt_two hy
    exact (round_le_two_zpow hxpower.le (by omega)).trans
      (two_zpow_le_round hypower (by omega))
  · rw [round, round, heq]
    refine mul_le_mul_of_nonneg_right ?_ (two_zpow_pos _).le
    exact_mod_cast nearestEven_mono (div_le_div_of_nonneg_right hle (two_zpow_pos _).le)

/-- A multiple of a power of two that is no finer than the last bit. -/
theorem round_eq_self {x : ℚ} {k e : ℤ} (hx : x = k * 2 ^ e) (he : lastBit x ≤ e) :
    round x = x := by
  obtain ⟨d, rfl⟩ := Int.le.dest he
  have hscaled : x / 2 ^ lastBit x = ((k * 2 ^ d : ℤ) : ℚ) := by
    rw [div_eq_iff (two_zpow_pos _).ne']
    rw [Int.cast_mul, mul_assoc, ← two_zpow_add, ← hx]
  rw [round, hscaled, nearestEven_intCast, ← hscaled, div_mul_cancel₀ _ (two_zpow_pos _).ne']

/-- Halves with 53 bits. -/
theorem round_half {n : ℕ} (hn : n < 2 ^ 53) : round (n / 2) = n / 2 := by
  rcases n.eq_zero_or_pos with rfl | hpos
  · simp
  have hpos : (0 : ℚ) < n / 2 := by positivity
  refine round_eq_self (k := n) (e := -1) (by rw [zpow_neg_one]; rfl) ?_
  rw [lastBit, abs_of_pos hpos]
  refine max_le (sub_le_iff_le_add.mpr ?_) (by decide)
  have hlt : (n : ℚ) / 2 < ((2 : ℕ) : ℚ) ^ (52 : ℤ) := by
    have hn : (n : ℚ) < 2 ^ 53 := by exact_mod_cast hn
    rw [div_lt_iff₀ two_pos]
    exact hn.trans_eq (by norm_num)
  have hlog := (Int.lt_zpow_iff_log_lt one_lt_two hpos).mp hlt
  omega

/-! ## Arithmetic -/

instance : NatCast F64 := ⟨fun n => ofRat n⟩

instance (n : ℕ) : OfNat F64 n := ⟨((n : ℕ) : F64)⟩

instance : OfScientific F64 :=
  ⟨fun mantissa sign exponent => ofRat (OfScientific.ofScientific mantissa sign exponent)⟩

instance : Add F64 where
  add
    | .number x, .number y => ofRat (x + y)
    | _, _ => .notFinite

instance : Mul F64 where
  mul
    | .number x, .number y => ofRat (x * y)
    | _, _ => .notFinite

/-- A quotient by `2.0`. -/
def halve : F64 → F64
  | .number x => ofRat (x / 2)
  | .notFinite => .notFinite

/-- The number, where there is one. -/
def value : F64 → ℚ
  | .number x => x
  | .notFinite => 0

@[simp] theorem value_number (x : ℚ) : (number x).value = x := rfl

theorem zero_eq : (0 : F64) = number 0 := by decide +kernel

theorem ofRat_eq {x : ℚ} (hx : round x = x) (hlarge : |x| < 2 ^ 1024) : ofRat x = number x := by
  rw [ofRat, hx, if_pos hlarge]

theorem half_lt_of_lt {x : ℚ} (hx : x < 2 ^ 53) : x / 2 < 2 ^ 1024 := by
  have hle : (2 : ℚ) ^ 53 ≤ 2 ^ 1024 := pow_le_pow_right₀ one_le_two (by decide)
  rw [div_lt_iff₀ two_pos]
  exact hx.trans_le (hle.trans (le_mul_of_one_le_right (pow_pos two_pos _).le one_le_two))

/-- Rounding does not leave the interval up to a number that is not rounded. -/
theorem exists_ofRat {x : ℚ} {n : ℕ} (hx : 0 ≤ x) (hle : x ≤ n / 2) (hn : n < 2 ^ 53) :
    ∃ y, ofRat x = number y ∧ 0 ≤ y ∧ y ≤ n / 2 := by
  have hround : round x ≤ n / 2 := (round_mono hx hle).trans_eq (round_half hn)
  have hhalf : (n : ℚ) / 2 < 2 ^ 1024 := half_lt_of_lt (by exact_mod_cast hn)
  refine ⟨round x, ?_, round_nonneg hx, hround⟩
  rw [ofRat, if_pos]
  rw [abs_of_nonneg (round_nonneg hx)]
  exact hround.trans_lt hhalf

/-- `a` halves of a length. -/
def units (m a : ℕ) : F64 := .number (a / 2 * m)

section Units

variable {m a b k bound : ℕ}

theorem ofRat_units (hm : bound * m < 2 ^ 53) (ha : a ≤ bound) :
    ofRat (a / 2 * m) = units m a := by
  have hlt : a * m < 2 ^ 53 := (Nat.mul_le_mul_right m ha).trans_lt hm
  have hprod : (a / 2 * m : ℚ) = ((a * m : ℕ) : ℚ) / 2 := by
    push_cast
    ring
  refine ofRat_eq ?_ ?_
  · rw [hprod]
    exact round_half hlt
  · rw [hprod, abs_of_nonneg (by positivity)]
    exact half_lt_of_lt (by exact_mod_cast hlt)

theorem natCast_eq {n : ℕ} (hn : 2 * n < 2 ^ 53) : (n : F64) = units 1 (2 * n) := by
  have hbound : 2 * n * 1 < 2 ^ 53 := by omega
  rw [← ofRat_units hbound le_rfl]
  change ofRat n = _
  congr 1
  push_cast
  ring

theorem units_add (hm : bound * m < 2 ^ 53) (hab : a + b ≤ bound) :
    units m a + units m b = units m (a + b) := by
  rw [← ofRat_units hm hab]
  change ofRat _ = _
  congr 1
  push_cast
  ring

theorem units_mul (hm : bound * m < 2 ^ 53) (hka : k * a ≤ bound) :
    units 1 k * units m (2 * a) = units m (k * a) := by
  rw [← ofRat_units hm hka]
  change ofRat _ = _
  congr 1
  push_cast
  ring

theorem halve_units (hm : bound * m < 2 ^ 53) (ha : a ≤ bound) :
    halve (units m (2 * a)) = units m a := by
  rw [← ofRat_units hm ha]
  change ofRat _ = _
  congr 1
  push_cast
  ring

protected theorem mul_comm (x y : F64) : x * y = y * x := by
  cases x with
  | notFinite => cases y <;> rfl
  | number x =>
      cases y with
      | notFinite => rfl
      | number y => exact congrArg ofRat (Rat.mul_comm x y)

/-- A part of a length that is no more than half of it. -/
theorem exists_mul_units (hpos : 0 < m) (hm : m < 2 ^ 53) {x : ℚ} (hx : 0 ≤ x) (hle : x ≤ 1 / 2) :
    ∃ r : ℚ, number x * units m 2 = number (r * m) ∧ 0 ≤ r ∧ r ≤ 1 / 2 := by
  have hpos : (0 : ℚ) < m := by exact_mod_cast hpos
  obtain ⟨y, hy, hnonneg, hhalf⟩ := exists_ofRat (mul_nonneg hx hpos.le)
    (show x * m ≤ (m : ℚ) / 2 by nlinarith) hm
  refine ⟨y / m, ?_, div_nonneg hnonneg hpos.le, ?_⟩
  · rw [div_mul_cancel₀ _ hpos.ne', ← hy]
    change ofRat (x * ((2 : ℕ) / 2 * m)) = _
    norm_num
  · rw [div_le_iff₀ hpos]
    linarith

end Units

end F64

namespace F32

/-- `as f64`. -/
def toF64 : F32 → F64
  | .number ((x : ℤ) : WithTop ℤ) => .number (x / 2 ^ 149)
  | _ => .notFinite

theorem toF64_finite (x : ℤ) : (finite x).toF64 = .number (x / 2 ^ 149) := rfl

/-- What is clamped is finite. -/
theorem exists_clamp {x : F32} (hx : x ≠ .nan) {low high : ℤ} (hle : low ≤ high) :
    ∃ y, x.clamp (finite low) (finite high) = finite y ∧ low ≤ y ∧ y ≤ high := by
  cases x with
  | nan => exact absurd rfl hx
  | number x =>
      have hlow : ¬Lt (finite high) (finite low) := by
        simpa [finite] using hle
      dsimp only [clamp]
      by_cases hbelow : Lt (.number x) (finite low)
      · rw [if_pos hbelow, if_neg hlow]
        exact ⟨low, rfl, le_rfl, hle⟩
      rw [if_neg hbelow]
      by_cases habove : Lt (finite high) (.number x)
      · rw [if_pos habove]
        exact ⟨high, rfl, hle, le_rfl⟩
      rw [if_neg habove]
      rw [finite, lt_number, not_lt] at hbelow habove
      induction x using WithBot.recBotCoe with
      | bot => simp at hbelow
      | coe x =>
          induction x using WithTop.recTopCoe with
          | top => simp at habove
          | coe x => exact ⟨x, rfl, by simpa using hbelow, by simpa using habove⟩

theorem exists_toF64_clamp {x : F32} (hx : x ≠ .nan) :
    ∃ y : ℚ, (x.clamp zero half).toF64 = .number y ∧ 0 ≤ y ∧ y ≤ 1 / 2 := by
  obtain ⟨y, hy, hlow, hhigh⟩ := exists_clamp hx (show (0 : ℤ) ≤ 2 ^ 148 by decide)
  have hlow : (0 : ℚ) ≤ y := by exact_mod_cast hlow
  have hhigh : (y : ℚ) ≤ 2 ^ 148 := by exact_mod_cast hhigh
  refine ⟨y / 2 ^ 149, ?_, by positivity, ?_⟩
  · rw [zero, half, hy, toF64_finite]
  · rw [div_le_iff₀ (by positivity)]
    exact hhigh.trans_eq (by norm_num)

end F32
