import Mathlib.Data.Char
import Mathlib.Data.List.Basic
import Mathlib.Data.Nat.Basic
import Mathlib.Tactic.Positivity

/-!
# Decimal digits of fixed width

`digits width n` writes `n` in exactly `width` decimal digits.  Texts of one
width compare as the numbers do (`digits_lt`), and a text of digits splits where
its number does (`digits_add`).

Two fractions with trailing zeros cut off differ in length, and the next
character of the text decides: a separator below the digits keeps their order
(`fraction_lt`).
-/

namespace Decimal

/-- `n` in exactly `width` decimal digits. -/
def digits : ℕ → ℕ → List Char
  | 0, _ => []
  | width + 1, n => Nat.digitChar (n / 10 ^ width % 10) :: digits width n

@[simp] theorem length_digits (width n : ℕ) : (digits width n).length = width := by
  induction width with
  | zero => rfl
  | succ width ih => rw [digits, List.length_cons, ih]

/-- Blocks of one length decide a comparison. -/
theorem append_lt_append {first second : List Char} (hlength : first.length = second.length)
    (hlt : first < second) (rest rest' : List Char) : first ++ rest < second ++ rest' := by
  induction first generalizing second with
  | nil =>
      rw [List.length_nil, eq_comm, List.length_eq_zero_iff] at hlength
      subst hlength
      exact absurd hlt (List.lt_irrefl [])
  | cons head tail ih =>
      cases second with
      | nil => simp at hlength
      | cons head' tail' =>
          simp only [List.cons_append, List.cons_lt_cons_iff] at hlt ⊢
          simp only [List.length_cons, Nat.add_right_cancel_iff] at hlength
          exact hlt.imp_right fun ⟨heq, htail⟩ => ⟨heq, ih hlength htail⟩

theorem digitChar_lt : ∀ n < 10, ∀ m < n, Nat.digitChar m < Nat.digitChar n := by decide

/-- Only the last `width` digits are written. -/
theorem digits_mod (width n : ℕ) : digits width (n % 10 ^ width) = digits width n := by
  suffices h : ∀ more, digits width (n % 10 ^ (width + more)) = digits width n from h 0
  induction width with
  | zero => exact fun _ => rfl
  | succ width ih =>
      intro more
      have hhead : n % 10 ^ (width + 1 + more) / 10 ^ width % 10 = n / 10 ^ width % 10 := by
        rw [add_assoc, pow_add, Nat.mod_mul_right_div_self, add_comm 1 more, pow_succ,
          Nat.mod_mul_left_mod]
      have htail := ih (1 + more)
      rw [← add_assoc] at htail
      rw [digits, digits, hhead, htail]

/-- Texts of one width compare as the numbers do. -/
theorem digits_lt {width m n : ℕ} (hlt : m < n) (hn : n < 10 ^ width) :
    digits width m < digits width n := by
  induction width generalizing m n with
  | zero => omega
  | succ width ih =>
      have hpos : 0 < 10 ^ width := by positivity
      have hn10 : n / 10 ^ width < 10 := by
        rw [Nat.div_lt_iff_lt_mul hpos, mul_comm]
        exact hn
      have hle : m / 10 ^ width ≤ n / 10 ^ width := Nat.div_le_div_right hlt.le
      rw [digits, digits, List.cons_lt_cons_iff, Nat.mod_eq_of_lt hn10,
        Nat.mod_eq_of_lt (lt_of_le_of_lt hle hn10)]
      rcases hle.lt_or_eq with hless | heq
      · exact Or.inl (digitChar_lt _ hn10 _ hless)
      · right
        refine ⟨congrArg _ heq, ?_⟩
        rw [← digits_mod width m, ← digits_mod width n]
        apply ih
        · have hm' := Nat.div_add_mod m (10 ^ width)
          have hn' := Nat.div_add_mod n (10 ^ width)
          rw [heq] at hm'
          omega
        · exact Nat.mod_lt n hpos

/-- A number of fixed width decides a comparison, or else what follows it does. -/
theorem field_lt {width m n : ℕ} {separator : Char} {rest rest' : List Char}
    (hlt : m < n ∨ m = n ∧ rest < rest') (hn : n < 10 ^ width) :
    digits width m ++ separator :: rest < digits width n ++ separator :: rest' := by
  rcases hlt with hless | ⟨rfl, hrest⟩
  · exact append_lt_append (by simp) (digits_lt hless hn) _ _
  · exact List.append_left_lt (List.cons_lt_cons_iff.mpr (Or.inr ⟨rfl, hrest⟩))

/-- The digits of a number are those of its leading part and of the rest. -/
theorem digits_add (width more n : ℕ) :
    digits (width + more) n = digits width (n / 10 ^ more) ++ digits more n := by
  induction width with
  | zero => rw [Nat.zero_add, digits, List.nil_append]
  | succ width ih =>
      rw [Nat.succ_add, digits, digits, List.cons_append, ih, Nat.div_div_eq_div_mul, ← pow_add,
        add_comm more]

/-- A text of digits begins with a digit. -/
theorem lt_digits {separator : Char} (hseparator : separator < '0') {width : ℕ}
    (hwidth : 0 < width) (n : ℕ) (rest rest' : List Char) :
    separator :: rest < digits width n ++ rest' := by
  obtain ⟨width, rfl⟩ := Nat.exists_eq_succ_of_ne_zero hwidth.ne'
  rw [Nat.succ_eq_add_one, digits, List.cons_append, List.cons_lt_cons_iff]
  left
  have hdigit : ∀ d < 10, '0' ≤ Nat.digitChar d := by decide
  exact lt_of_lt_of_le hseparator (hdigit _ (Nat.mod_lt _ (by decide)))

/-- A shorter text comes before a longer one that it does not exceed in the
digits they share. -/
theorem digits_lt_longer {separator : Char} (hseparator : separator < '0') {width more m n : ℕ}
    (hmore : 0 < more) (hle : m ≤ n / 10 ^ more) (hn : n < 10 ^ (width + more))
    (rest rest' : List Char) :
    digits width m ++ separator :: rest < digits (width + more) n ++ rest' := by
  rw [digits_add, List.append_assoc]
  rcases hle.lt_or_eq with hless | rfl
  · refine append_lt_append (by simp) (digits_lt hless ?_) _ _
    rw [Nat.div_lt_iff_lt_mul (by positivity), ← pow_add]
    exact hn
  · exact List.append_left_lt (lt_digits hseparator hmore _ _ _)

/-- A longer text comes before a shorter one that exceeds it in the digits they
share. -/
theorem digits_longer_lt {width more m n : ℕ} (hlt : n / 10 ^ more < m) (hm : m < 10 ^ width)
    (rest rest' : List Char) : digits (width + more) n ++ rest < digits width m ++ rest' := by
  rw [digits_add, List.append_assoc]
  exact append_lt_append (by simp) (digits_lt hlt hm) _ _

/-- The shortest text of a number is its text of that width. -/
theorem toDigits_eq_digits (n : ℕ) :
    Nat.toDigits 10 n = digits (Nat.toDigits 10 n).length n := by
  induction n using Nat.strong_induction_on with
  | h n ih =>
      rcases Nat.lt_or_ge n 10 with hsmall | hlarge
      · rw [Nat.toDigits_of_lt_base hsmall, List.length_singleton, digits, digits, pow_zero,
          Nat.div_one, Nat.mod_eq_of_lt hsmall]
      · rw [Nat.toDigits_of_base_le (by decide) hlarge, List.length_append, List.length_singleton,
          digits_add, pow_one, ← ih (n / 10) (Nat.div_lt_self (by omega) (by decide)), digits,
          digits, pow_zero, Nat.div_one]

/-- Fractions of `width` digits with trailing zeros cut off, followed by a
separator below the digits, compare as the numbers do. -/
theorem fraction_lt {separator : Char} (hseparator : separator < '0') {m n k i l j : ℕ}
    (hwidth : k + i = l + j) (hm : 10 ^ i ∣ m) (hn : 10 ^ j ∣ n) (hlt : m < n)
    (hbound : n < 10 ^ (l + j)) (rest rest' : List Char) :
    digits k (m / 10 ^ i) ++ separator :: rest < digits l (n / 10 ^ j) ++ separator :: rest' := by
  rcases Nat.lt_or_ge k l with hkl | hlk
  · -- the second text is the longer one
    obtain ⟨more, rfl⟩ := Nat.exists_eq_add_of_lt hkl
    have hi : i = more + 1 + j := by omega
    subst hi
    refine digits_lt_longer hseparator (Nat.succ_pos more) ?_ ?_ _ _
    · rw [Nat.div_div_eq_div_mul, ← pow_add, add_comm j]
      exact Nat.div_le_div_right hlt.le
    · rw [Nat.div_lt_iff_lt_mul (by positivity), ← pow_add]
      exact hbound
  · obtain ⟨more, rfl⟩ := Nat.exists_eq_add_of_le hlk
    have hj : j = more + i := by omega
    subst hj
    refine digits_longer_lt ?_ ?_ _ _
    · rw [Nat.div_div_eq_div_mul, ← pow_add, add_comm i, Nat.div_lt_iff_lt_mul (by positivity),
        Nat.div_mul_cancel hn]
      exact hlt
    · rw [Nat.div_lt_iff_lt_mul (by positivity), ← pow_add]
      exact hbound

end Decimal
