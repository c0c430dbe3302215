import Mathlib.Data.Nat.Basic

/-!
# ASCII characters

A statement about the characters below a bound is checked at each code point.
-/

namespace Ascii

/-- Space, tab, line feed, form feed and carriage return. -/
def isWhitespace (c : Char) : Bool :=
  c == ' ' || c == '\t' || c == '\n' || c == '\x0c' || c == '\r'

theorem lt_of_le {c last : Char} (hc : c ≤ last) {bound : ℕ} (hlast : last.toNat < bound) :
    c.toNat < bound :=
  Nat.lt_of_le_of_lt (UInt32.le_iff_toNat_le.mp hc) hlast

/-- What holds of every code point below a bound holds of the characters there. -/
theorem forall_of_lt {p : Char → Prop} (bound : ℕ) (hpoints : ∀ n < bound, p (Char.ofNat n))
    {c : Char} (hc : c.toNat < bound) : p c := by
  have h := hpoints c.toNat hc
  rwa [Char.ofNat_toNat] at h

/-- Only ASCII letters have another case. -/
theorem toUpper_of_le {c : Char} (hc : 128 ≤ c.toNat) : c.toUpper = c := by
  have hcase : ¬('a'.val ≤ c.val ∧ c.val ≤ 'z'.val) := by
    intro h
    have hle : c.toNat ≤ 'z'.toNat := UInt32.le_iff_toNat_le.mp h.2
    have hz : 'z'.toNat = 122 := rfl
    omega
  exact dif_neg hcase

theorem toLower_of_le {c : Char} (hc : 128 ≤ c.toNat) : c.toLower = c := by
  have hcase : ¬('A'.val ≤ c.val ∧ c.val ≤ 'Z'.val) := by
    intro h
    have hlt := lt_of_le (show c ≤ 'Z' from h.2) (show 'Z'.toNat < 128 by decide)
    omega
  exact dif_neg hcase

/-- The code points of the upper-case letters. -/
theorem isUpper_iff {c : Char} : c.isUpper = true ↔ 65 ≤ c.toNat ∧ c.toNat ≤ 90 := by
  delta Char.isUpper
  rw [decide_eq_true_iff]
  exact and_congr UInt32.le_iff_toNat_le UInt32.le_iff_toNat_le

theorem toLower_of_isUpper_eq_false {c : Char} (hc : c.isUpper = false) : c.toLower = c := by
  have hcase : ¬('A'.val ≤ c.val ∧ c.val ≤ 'Z'.val) := by
    intro h
    have hupper : c.isUpper = true :=
      isUpper_iff.mpr (h.imp UInt32.le_iff_toNat_le.mp UInt32.le_iff_toNat_le.mp)
    exact absurd (hupper.symm.trans hc) (by decide)
  exact dif_neg hcase

/-- A character in front of the letters is the lower case of no other character. -/
theorem toLower_eq_iff {c d : Char} (hd : d.toNat < 65) : c.toLower = d ↔ c = d := by
  delta Char.toLower
  split
  · rename_i hupper
    have hbounds : 65 ≤ c.toNat ∧ c.toNat ≤ 90 := by
      simpa [UInt32.le_iff_toNat_le] using hupper
    have hshift : ('a'.val - 'A'.val : UInt32).toNat = 32 := by decide
    have hsum : (c.val + ('a'.val - 'A'.val)).toNat = c.toNat + 32 := by
      rw [UInt32.toNat_add, hshift]
      exact Nat.mod_eq_of_lt (by rw [Char.toNat] at hbounds; omega)
    refine iff_of_false (fun heq => ?_) (fun heq => ?_)
    · have hnat : (c.val + ('a'.val - 'A'.val)).toNat = d.toNat := congrArg Char.toNat heq
      omega
    · rw [heq] at hbounds
      omega
  · exact Iff.rfl

/-- The code points of the letters and digits. -/
theorem isAlphanum_iff {c : Char} :
    c.isAlphanum = true ↔
      65 ≤ c.toNat ∧ c.toNat ≤ 90 ∨ 97 ≤ c.toNat ∧ c.toNat ≤ 122 ∨
        48 ≤ c.toNat ∧ c.toNat ≤ 57 := by
  delta Char.isAlphanum Char.isAlpha Char.isLower Char.isDigit
  simp only [Bool.or_eq_true, isUpper_iff, Bool.and_eq_true, decide_eq_true_iff, ge_iff_le,
    UInt32.le_iff_toNat_le]
  exact or_assoc

end Ascii
