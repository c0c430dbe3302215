import Mathlib.Algebra.Group.Nat.Defs
import Mathlib.Algebra.Ring.Int.Defs
import Mathlib.Data.Option.Basic

/-!
# Machine arithmetic with and without overflow checks

The result of an operation is computed over the integers.  Where it does not fit the
machine type, a build with overflow checks panics (`none`), and the other keeps what is left
of the integer after wrapping.

So every build computes a result that fits (`compute_of_fits`), and a build with overflow checks
nothing else (`compute_checked_eq_none`).  A cast wraps in every build (`asI64`).
-/

namespace Overflow

/-- A machine type of integers; `ofInt` wraps. -/
class Word (W : Type) where
  toInt : W → ℤ
  ofInt : ℤ → W
  ofInt_toInt : ∀ w, ofInt (toInt w) = w

/-- The integer is one of the machine type. -/
def Fits (W : Type) [Word W] (n : ℤ) : Prop := Word.toInt (Word.ofInt n : W) = n

instance (W : Type) [Word W] : DecidablePred (Fits W) := fun _ =>
  inferInstanceAs (Decidable (_ = _))

/-- The machine's value of a result. -/
def compute (W : Type) [Word W] (overflowChecks : Bool) (n : ℤ) : Option W :=
  if overflowChecks ∧ ¬ Fits W n then none else some (Word.ofInt n)

section Operations

variable {W : Type} [Word W] (overflowChecks : Bool)

def add (a b : W) : Option W := compute W overflowChecks (Word.toInt a + Word.toInt b)

def sub (a b : W) : Option W := compute W overflowChecks (Word.toInt a - Word.toInt b)

def mul (a b : W) : Option W := compute W overflowChecks (Word.toInt a * Word.toInt b)

/-- A division is checked in every build. -/
def div (a b : W) : Option W :=
  if Word.toInt b = 0 then none else compute W true ((Word.toInt a).tdiv (Word.toInt b))

end Operations

variable {W : Type} [Word W] {n : ℤ}

theorem fits_toInt (w : W) : Fits W (Word.toInt w) := congrArg Word.toInt (Word.ofInt_toInt w)

theorem fits_iff_exists : Fits W n ↔ ∃ w : W, Word.toInt w = n := by
  constructor
  · exact fun hfits => ⟨_, hfits⟩
  · rintro ⟨w, rfl⟩
    exact fits_toInt w

/-- A result that fits is computed in every build. -/
theorem compute_of_fits (hfits : Fits W n) (overflowChecks : Bool) :
    compute W overflowChecks n = some (Word.ofInt n) :=
  if_neg fun h => h.2 hfits

/-- The machine's value of an integer that it holds. -/
theorem compute_of_toInt {w : W} (hw : Word.toInt w = n) (overflowChecks : Bool) :
    compute W overflowChecks n = some w := by
  rw [← hw, compute_of_fits (fits_toInt w), Word.ofInt_toInt]

/-- With overflow checks, nothing is computed from a result that does not fit. -/
theorem compute_checked_eq_none : compute W true n = none ↔ ¬ Fits W n := by
  simp [compute]

/-! ## The 64-bit types -/

instance : Word Int64 where
  toInt := Int64.toInt
  ofInt := Int64.ofInt
  ofInt_toInt w := Int64.ofInt_toInt w

instance : Word UInt64 where
  toInt w := w.toNat
  ofInt n := UInt64.ofNat (n % 2 ^ 64).toNat
  ofInt_toInt w := by
    have hlt := w.toNat_lt
    have hmod : ((w.toNat : ℤ) % 2 ^ 64).toNat = w.toNat := by omega
    rw [hmod, UInt64.ofNat_toNat]

@[simp] theorem toInt_int64 (w : Int64) : Word.toInt w = w.toInt := rfl

@[simp] theorem ofInt_int64 (n : ℤ) : (Word.ofInt n : Int64) = Int64.ofInt n := rfl

@[simp] theorem toInt_uint64 (w : UInt64) : Word.toInt w = (w.toNat : ℤ) := rfl

theorem fits_int64 : Fits Int64 n ↔ -2 ^ 63 ≤ n ∧ n < 2 ^ 63 := by
  constructor
  · intro hfits
    obtain ⟨w, rfl⟩ := fits_iff_exists.mp hfits
    exact ⟨w.le_toInt, w.toInt_lt⟩
  · rintro ⟨hle, hlt⟩
    exact Int64.toInt_ofInt_of_le hle hlt

theorem fits_uint64 : Fits UInt64 n ↔ 0 ≤ n ∧ n < 2 ^ 64 := by
  constructor
  · intro hfits
    obtain ⟨w, rfl⟩ := fits_iff_exists.mp hfits
    have hlt := w.toNat_lt
    rw [toInt_uint64]
    omega
  · rintro ⟨hle, hlt⟩
    have hmod : (n % 2 ^ 64).toNat = n.toNat := by omega
    show ((UInt64.ofNat (n % 2 ^ 64).toNat).toNat : ℤ) = n
    rw [hmod, UInt64.toNat_ofNat_of_lt' (show n.toNat < UInt64.size by
      rw [UInt64.size]; omega)]
    exact Int.toNat_of_nonneg hle

theorem ofInt_natCast (n : ℕ) : (Word.ofInt (n : ℤ) : UInt64) = UInt64.ofNat n := by
  show UInt64.ofNat ((n : ℤ) % 2 ^ 64).toNat = UInt64.ofNat n
  rw [← UInt64.toNat_inj, UInt64.toNat_ofNat', UInt64.toNat_ofNat']
  omega

/-- A natural number as a `u64`. -/
theorem compute_uint64 (overflowChecks : Bool) (n : ℕ) :
    compute UInt64 overflowChecks n =
      if overflowChecks ∧ 2 ^ 64 ≤ n then none else some (UInt64.ofNat n) := by
  have hfits : ¬ Fits UInt64 (n : ℤ) ↔ 2 ^ 64 ≤ n := by
    rw [fits_uint64]
    omega
  rw [compute, ofInt_natCast]
  exact if_congr (and_congr_right fun _ => hfits) rfl rfl

/-- The wrapping operations of `i64` keep what is left of the result. -/
theorem ofInt_add (a b : Int64) : Int64.ofInt (a.toInt + b.toInt) = a + b := by
  rw [Int64.ofInt_add, Int64.ofInt_toInt, Int64.ofInt_toInt]

theorem ofInt_sub (a b : Int64) : Int64.ofInt (a.toInt - b.toInt) = a - b := by
  rw [Int64.ofInt_sub, Int64.ofInt_toInt, Int64.ofInt_toInt]

theorem ofInt_mul (a b : Int64) : Int64.ofInt (a.toInt * b.toInt) = a * b := by
  rw [Int64.ofInt_mul, Int64.ofInt_toInt, Int64.ofInt_toInt]

/-! ## Casts -/

/-- `n as i64`, of a `u64` or a `usize`. -/
def asI64 (n : ℕ) : ℤ := if n % 2 ^ 64 < 2 ^ 63 then n % 2 ^ 64 else (n % 2 ^ 64 : ℤ) - 2 ^ 64

/-- A cast keeps what `i64` has. -/
theorem asI64_of_lt {n : ℕ} (hlt : n < 2 ^ 63) : asI64 n = n := by
  unfold asI64
  split <;> omega

/-- The upper half of `u64` becomes negative. -/
theorem asI64_of_le {n : ℕ} (hle : 2 ^ 63 ≤ n) (hlt : n < 2 ^ 64) : asI64 n = n - 2 ^ 64 := by
  unfold asI64
  split <;> omega

theorem asI64_le (n : ℕ) : asI64 n ≤ n := by
  unfold asI64
  split <;> omega

end Overflow
