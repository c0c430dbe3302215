import Mathlib.Data.List.Lex
import Mathlib.Tactic.Ring
import Modo.Lib.Text

/-!
# Numbers in a radix

`from_str_radix` of the unsigned integers: digits of either case, a `+` in front, and an error
when the number does not fit.

`digits` writes a number in a fixed width.  Digits of one width compare as the numbers do
(`digits_lt_digits_iff`).
-/

namespace Radix

/-- `char::to_digit`. -/
def toDigit (radix : ℕ) (c : Char) : Option ℕ :=
  let value :=
    if '0' ≤ c ∧ c ≤ '9' then c.toNat - '0'.toNat
    else if 'a' ≤ c ∧ c ≤ 'z' then c.toNat - 'a'.toNat + 10
    else if 'A' ≤ c ∧ c ≤ 'Z' then c.toNat - 'A'.toNat + 10
    else radix
  if value < radix then some value else none

/-- The number with these digits. -/
def number (radix : ℕ) (values : List ℕ) : ℕ :=
  values.foldl (fun sum value => sum * radix + value) 0

/-- `from_str_radix` of the integers below a bound. -/
def fromStrRadix (bound radix : ℕ) (text : List Char) : Option ℕ :=
  let digits := if text.head? = some '+' then text.tail else text
  if digits = [] then none
  else
    match digits.mapM (toDigit radix) with
    | none => none
    | some values => if number radix values < bound then some (number radix values) else none

/-! ## Decimal digits -/

def isDigit (c : Char) : Bool := decide ('0' ≤ c ∧ c ≤ '9')

theorem toDigit_of_isDigit {c : Char} (hc : isDigit c = true) :
    toDigit 10 c = some (c.toNat - '0'.toNat) := by
  have hbounds := of_decide_eq_true hc
  have hle : c.toNat ≤ '9'.toNat := UInt32.le_iff_toNat_le.mp hbounds.2
  have hnine : '9'.toNat = 57 := rfl
  have hzero : '0'.toNat = 48 := rfl
  rw [toDigit, if_pos hbounds]
  exact if_pos (by omega)

theorem mapM_toDigit {text : List Char} (htext : ∀ c ∈ text, isDigit c = true) :
    text.mapM (toDigit 10) = some (text.map fun c => c.toNat - '0'.toNat) := by
  induction text with
  | nil => rfl
  | cons c rest ih =>
      rw [List.forall_mem_cons] at htext
      rw [List.mapM_cons, toDigit_of_isDigit htext.1, ih htext.2]
      rfl

/-- The integers below a bound, read from decimal digits. -/
theorem fromStrRadix_of_digits {text : List Char} (htext : ∀ c ∈ text, isDigit c = true)
    (hne : text ≠ []) (bound : ℕ) :
    fromStrRadix bound 10 text =
      if Nat.ofDigitChars 10 text 0 < bound then some (Nat.ofDigitChars 10 text 0) else none := by
  have hhead : text.head? ≠ some '+' := by
    intro hplus
    exact absurd (htext '+' (List.mem_of_mem_head? hplus)) (by decide)
  have hnumber : number 10 (text.map fun c => c.toNat - '0'.toNat) =
      Nat.ofDigitChars 10 text 0 := by
    rw [number, List.foldl_map, Nat.ofDigitChars_eq_foldl]
    congr 1
    funext sum c
    rw [Nat.mul_comm]
  rw [fromStrRadix, if_neg hhead, if_neg hne]
  simp only [mapM_toDigit htext, hnumber]

/-! ## Digits of a fixed width -/

/-- A number in this many digits, the most significant one first. -/
def digits (radix : ℕ) : ℕ → ℕ → List ℕ
  | 0, _ => []
  | width + 1, n => digits radix width (n / radix) ++ [n % radix]

variable {radix : ℕ}

@[simp] theorem length_digits (width n : ℕ) : (digits radix width n).length = width := by
  induction width generalizing n with
  | zero => rfl
  | succ width ih => rw [digits, List.length_append, ih, List.length_singleton]

theorem lt_of_mem_digits (hradix : 0 < radix) {width n value : ℕ}
    (hmem : value ∈ digits radix width n) : value < radix := by
  induction width generalizing n with
  | zero => cases hmem
  | succ width ih =>
      rcases List.mem_append.mp hmem with hfront | hlast
      · exact ih hfront
      · rw [List.mem_singleton.mp hlast]
        exact Nat.mod_lt n hradix

/-- Each digit by its place. -/
theorem digits_eq_map_range (width n : ℕ) :
    digits radix width n =
      (List.range width).map fun i => n / radix ^ (width - 1 - i) % radix := by
  induction width generalizing n with
  | zero => rfl
  | succ width ih =>
      rw [digits, ih, List.range_succ, List.map_append, List.map_singleton, Nat.add_sub_cancel,
        Nat.sub_self, pow_zero, Nat.div_one]
      congr 1
      refine List.map_congr_left fun i hi => ?_
      have hplace : width - i = width - 1 - i + 1 := by
        have hlt := List.mem_range.mp hi
        omega
      rw [hplace, Nat.div_div_eq_div_mul, pow_succ']

theorem number_digits (width n : ℕ) :
    number radix (digits radix width n) = n % radix ^ width := by
  induction width generalizing n with
  | zero => rw [pow_zero, Nat.mod_one]; rfl
  | succ width ih =>
      calc number radix (digits radix (width + 1) n)
          = number radix (digits radix width (n / radix)) * radix + n % radix := by
            rw [digits, number, List.foldl_append]; rfl
        _ = n % radix + radix * (n / radix % radix ^ width) := by rw [ih]; ring
        _ = n % radix ^ (width + 1) := by rw [pow_succ', Nat.mod_mul]

theorem number_cons (value : ℕ) (rest : List ℕ) :
    number radix (value :: rest) = value * radix ^ rest.length + number radix rest := by
  have hfold : ∀ sum, rest.foldl (fun sum value => sum * radix + value) sum =
      sum * radix ^ rest.length + number radix rest := by
    induction rest with
    | nil => intro sum; simp [number]
    | cons next rest ih =>
        intro sum
        rw [number, List.foldl_cons, List.foldl_cons, ih, ih (0 * radix + next),
          List.length_cons, pow_succ']
        ring
  rw [number, List.foldl_cons, hfold]
  ring

theorem number_lt_pow {values : List ℕ} (hvalues : ∀ value ∈ values, value < radix) :
    number radix values < radix ^ values.length := by
  induction values with
  | nil => exact Nat.one_pos
  | cons value rest ih =>
      rw [List.forall_mem_cons] at hvalues
      calc number radix (value :: rest)
          = value * radix ^ rest.length + number radix rest := number_cons value rest
        _ < (value + 1) * radix ^ rest.length := by
            rw [Nat.add_one_mul]
            exact Nat.add_lt_add_left (ih hvalues.2) _
        _ ≤ radix * radix ^ rest.length := Nat.mul_le_mul_right _ hvalues.1
        _ = radix ^ (value :: rest).length := by rw [List.length_cons, pow_succ']

/-- The first digit that differs decides. -/
theorem number_lt_number {first second : List ℕ} (hlength : first.length = second.length)
    (hfirst : ∀ value ∈ first, value < radix) (hlt : first < second) :
    number radix first < number radix second := by
  induction first generalizing second with
  | nil =>
      rw [List.length_nil, eq_comm, List.length_eq_zero_iff] at hlength
      subst hlength
      exact absurd hlt (List.lt_irrefl [])
  | cons value rest ih =>
      cases second with
      | nil => cases hlength
      | cons value' rest' =>
          rw [List.forall_mem_cons] at hfirst
          have hrests : rest.length = rest'.length := Nat.succ.inj hlength
          rw [number_cons, number_cons, ← hrests]
          rcases List.cons_lt_cons_iff.mp hlt with hvalue | ⟨rfl, hrest⟩
          · have hbound := number_lt_pow hfirst.2
            have hmul := Nat.mul_le_mul_right (radix ^ rest.length) hvalue
            rw [Nat.succ_mul] at hmul
            omega
          · exact Nat.add_lt_add_left (ih hrests hfirst.2 hrest) _

/-- Digits of one width are those of one number. -/
theorem digits_eq_digits_iff {width m n : ℕ} (hm : m < radix ^ width) (hn : n < radix ^ width) :
    digits radix width m = digits radix width n ↔ m = n := by
  refine ⟨fun heq => ?_, fun heq => heq ▸ rfl⟩
  have hsame := congrArg (number radix) heq
  rwa [number_digits, number_digits, Nat.mod_eq_of_lt hm, Nat.mod_eq_of_lt hn] at hsame

/-- Digits of one width compare as the numbers do. -/
theorem digits_lt_digits_iff (hradix : 0 < radix) {width m n : ℕ} (hm : m < radix ^ width)
    (hn : n < radix ^ width) : digits radix width m < digits radix width n ↔ m < n := by
  have hnumber : ∀ {m n : ℕ}, m < radix ^ width → n < radix ^ width →
      digits radix width m < digits radix width n → m < n := by
    intro m n hm hn hlt
    have hnumbers := number_lt_number (by simp) (fun _ => lt_of_mem_digits hradix) hlt
    rwa [number_digits, number_digits, Nat.mod_eq_of_lt hm, Nat.mod_eq_of_lt hn] at hnumbers
  refine ⟨hnumber hm hn, fun hlt => ?_⟩
  rcases lt_trichotomy (digits radix width m) (digits radix width n) with hless | heq | hgreater
  · exact hless
  · exact absurd ((digits_eq_digits_iff hm hn).mp heq) hlt.ne
  · exact absurd (hnumber hn hm hgreater) hlt.not_gt

/-- The characters of digits say which they are. -/
theorem map_eq_map_iff {α : Type*} {char : ℕ → α}
    (heq : ∀ m < radix, ∀ n < radix, char m = char n ↔ m = n) {first second : List ℕ}
    (hfirst : ∀ value ∈ first, value < radix) (hsecond : ∀ value ∈ second, value < radix) :
    first.map char = second.map char ↔ first = second := by
  induction first generalizing second with
  | nil => cases second <;> simp
  | cons value rest ih =>
      cases second with
      | nil => simp
      | cons value' rest' =>
          rw [List.forall_mem_cons] at hfirst hsecond
          rw [List.map_cons, List.map_cons, List.cons.injEq, List.cons.injEq,
            heq _ hfirst.1 _ hsecond.1, ih hfirst.2 hsecond.2]

/-- Digits compare as their characters do. -/
theorem map_lt_map_iff {α : Type*} [LT α] {char : ℕ → α}
    (hlt : ∀ m < radix, ∀ n < radix, char m < char n ↔ m < n)
    (heq : ∀ m < radix, ∀ n < radix, char m = char n ↔ m = n) {first second : List ℕ}
    (hfirst : ∀ value ∈ first, value < radix) (hsecond : ∀ value ∈ second, value < radix) :
    first.map char < second.map char ↔ first < second := by
  induction first generalizing second with
  | nil => cases second <;> simp
  | cons value rest ih =>
      cases second with
      | nil => simp
      | cons value' rest' =>
          rw [List.forall_mem_cons] at hfirst hsecond
          rw [List.map_cons, List.map_cons, List.cons_lt_cons_iff, List.cons_lt_cons_iff,
            hlt _ hfirst.1 _ hsecond.1, heq _ hfirst.1 _ hsecond.1, ih hfirst.2 hsecond.2]

end Radix
