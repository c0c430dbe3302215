import Mathlib.Algebra.Order.BigOperators.Group.List
import Mathlib.Algebra.Order.Group.Nat
import Modo.Lib.Overflow
import Modo.Lib.Radix

/-!
# Durations

`parse_duration` reads a text such as `2h30m15s` in one pass.  A number is read as a `u64`, which
is checked; the product with its unit and the running sum are plain `u64` arithmetic.

`specified_iff` says on which texts the function is as its grammar: a build without overflow checks
goes wrong on the texts of the grammar whose sum does not fit, and one with them panics on every
text that begins with such a sum.
-/

namespace Modo.Cron

open Overflow (Word Fits)
open Radix (isDigit)

/-! ## The parser -/

/-- The errors of a schedule, as the constructors of `crate::Error`. -/
inductive Error where
  | unprocessableEntity (message : String)
  deriving DecidableEq

inductive TimeUnit where
  | h
  | m
  | s
  deriving DecidableEq

namespace TimeUnit

def char : TimeUnit → Char
  | h => 'h'
  | m => 'm'
  | s => 's'

def secs : TimeUnit → ℕ
  | h => 3600
  | m => 60
  | s => 1

def ofChar (ch : Char) : Option TimeUnit :=
  if ch = 'h' then some h else if ch = 'm' then some m else if ch = 's' then some s else none

/-- `total_secs += n * secs`; the seconds are added as they are. -/
def addTo (overflowChecks : Bool) (totalSecs n : UInt64) : TimeUnit → Option UInt64
  | h => (Overflow.mul overflowChecks n 3600).bind (Overflow.add overflowChecks totalSecs)
  | m => (Overflow.mul overflowChecks n 60).bind (Overflow.add overflowChecks totalSecs)
  | s => Overflow.add overflowChecks totalSecs n

end TimeUnit

section Parse

variable (overflowChecks : Bool) (s : String)

def durationError (what : String) : Error :=
  .unprocessableEntity ("invalid duration '" ++ s ++ "': " ++ what)

/-- The loop over the characters, and the checks behind it.  `none` is a panic. -/
def scanDuration (totalSecs : UInt64) (currentNum : List Char) (foundAny : Bool) :
    List Char → Option (Except Error UInt64)
  | [] =>
      if currentNum ≠ [] then
        some (.error (durationError s "trailing number without unit (use h, m, or s)"))
      else if foundAny = false then
        some (.error (durationError s "no duration components found"))
      else some (.ok totalSecs)
  | ch :: rest =>
      if isDigit ch then scanDuration totalSecs (currentNum ++ [ch]) foundAny rest
      else
        match TimeUnit.ofChar ch with
        | none =>
            some (.error (durationError s ("unexpected character '" ++ String.singleton ch ++ "'")))
        | some unit =>
            match Radix.fromStrRadix (2 ^ 64) 10 currentNum with
            | none =>
                some (.error (durationError s
                  ("bad number before '" ++ String.singleton ch ++ "'")))
            | some n =>
                (unit.addTo overflowChecks totalSecs (UInt64.ofNat n)).bind fun totalSecs =>
                  scanDuration totalSecs [] true rest

/-- The seconds of a duration. -/
def parseDuration : Option (Except Error UInt64) :=
  scanDuration overflowChecks s 0 [] false s.toList

end Parse

/-! ## The grammar -/

/-- A number and its unit. -/
@[ext]
structure Component where
  digits : List Char
  unit : TimeUnit
  digits_ne_nil : digits ≠ []
  digits_isDigit : ∀ c ∈ digits, isDigit c = true

namespace Component

def number (component : Component) : ℕ := Nat.ofDigitChars 10 component.digits 0

def secs (component : Component) : ℕ := component.number * component.unit.secs

def text (component : Component) : List Char := component.digits ++ [component.unit.char]

end Component

def totalSecs (components : List Component) : ℕ := (components.map Component.secs).sum

def durationText (components : List Component) : List Char := components.flatMap Component.text

/-- `([0-9]+[hms])+`, with these components. -/
def Matches (s : String) (components : List Component) : Prop :=
  s.toList = durationText components ∧ components ≠ []

/-- The texts of the grammar whose sum fits give that sum, and all others an error. -/
def IsSpecified (overflowChecks : Bool) (s : String) : Prop :=
  (∀ components, Matches s components → totalSecs components < 2 ^ 64 →
    parseDuration overflowChecks s = some (.ok (UInt64.ofNat (totalSecs components)))) ∧
  ((¬ ∃ components, Matches s components ∧ totalSecs components < 2 ^ 64) →
    ∃ error, parseDuration overflowChecks s = some (.error error))

/-- The text begins with numbers that fit and a sum that does not; without overflow checks, it has
nothing behind them. -/
def SumOverflows (overflowChecks : Bool) (s : String) : Prop :=
  ∃ components rest, s.toList = durationText components ++ rest ∧
    (overflowChecks = false → rest = []) ∧
    (∀ component ∈ components, component.number < 2 ^ 64) ∧ 2 ^ 64 ≤ totalSecs components

/-! ## The loop over a component -/

/-- What a component adds. -/
theorem TimeUnit.addTo_eq (overflowChecks : Bool) (totalSecs : UInt64) {n : ℕ} (hn : n < 2 ^ 64)
    (unit : TimeUnit) :
    unit.addTo overflowChecks totalSecs (UInt64.ofNat n) =
      if overflowChecks ∧ 2 ^ 64 ≤ totalSecs.toNat + n * unit.secs then none
      else some (UInt64.ofNat (totalSecs.toNat + n * unit.secs)) := by
  have hnumber : (UInt64.ofNat n).toNat = n := UInt64.toNat_ofNat_of_lt' hn
  have hadd : ∀ k, (UInt64.ofNat k).toNat = k ∨ overflowChecks = false →
      Overflow.add overflowChecks totalSecs (UInt64.ofNat k) =
        if overflowChecks ∧ 2 ^ 64 ≤ totalSecs.toNat + k then none
        else some (UInt64.ofNat (totalSecs.toNat + k)) := by
    intro k hk
    rw [Overflow.add, Overflow.toInt_uint64, Overflow.toInt_uint64, ← Int.natCast_add,
      Overflow.compute_uint64]
    rcases hk with hk | rfl
    · rw [hk]
    · simp only [Bool.false_eq_true, false_and, if_false, Option.some.injEq]
      rw [← UInt64.toNat_inj, UInt64.toNat_ofNat', UInt64.toNat_ofNat', UInt64.toNat_ofNat']
      omega
  have hmul : ∀ factor : UInt64,
      (Overflow.mul overflowChecks (UInt64.ofNat n) factor).bind
          (Overflow.add overflowChecks totalSecs) =
        if overflowChecks ∧ 2 ^ 64 ≤ totalSecs.toNat + n * factor.toNat then none
        else some (UInt64.ofNat (totalSecs.toNat + n * factor.toNat)) := by
    intro factor
    rw [Overflow.mul, Overflow.toInt_uint64, Overflow.toInt_uint64, hnumber, ← Int.natCast_mul,
      Overflow.compute_uint64]
    by_cases hproduct : overflowChecks = true ∧ 2 ^ 64 ≤ n * factor.toNat
    · rw [if_pos hproduct, if_pos ⟨hproduct.1, by omega⟩, Option.bind_none]
    · rw [if_neg hproduct, Option.bind_some, hadd]
      rw [not_and, not_le] at hproduct
      cases overflowChecks with
      | true => exact Or.inl (UInt64.toNat_ofNat_of_lt' (hproduct rfl))
      | false => exact Or.inr rfl
  cases unit with
  | h => exact hmul 3600
  | m => exact hmul 60
  | s =>
      rw [TimeUnit.addTo, hadd n (Or.inl hnumber)]
      simp only [TimeUnit.secs, Nat.mul_one]

theorem TimeUnit.ofChar_char (unit : TimeUnit) : TimeUnit.ofChar unit.char = some unit := by
  cases unit <;> rfl

theorem TimeUnit.char_of_ofChar {ch : Char} {unit : TimeUnit} (hunit : ofChar ch = some unit) :
    ch = unit.char := by
  unfold ofChar at hunit
  split_ifs at hunit with hh hm hs <;> cases hunit <;> assumption

theorem TimeUnit.char_injective : Function.Injective TimeUnit.char := by
  intro a b hchar
  rw [← Option.some_inj, ← ofChar_char a, ← ofChar_char b, hchar]

theorem TimeUnit.not_isDigit_char (unit : TimeUnit) : isDigit unit.char = false := by
  cases unit <;> rfl

section Scan

variable (overflowChecks : Bool) (s : String) (total : UInt64) (found : Bool)

theorem scanDuration_digits {digits : List Char} (hdigits : ∀ c ∈ digits, isDigit c = true)
    (num rest : List Char) :
    scanDuration overflowChecks s total num found (digits ++ rest) =
      scanDuration overflowChecks s total (num ++ digits) found rest := by
  induction digits generalizing num with
  | nil => rw [List.nil_append, List.append_nil]
  | cons c digits ih =>
      rw [List.forall_mem_cons] at hdigits
      rw [List.cons_append, scanDuration, if_pos hdigits.1, ih hdigits.2, List.append_assoc,
        List.singleton_append]

/-- The loop over one component. -/
theorem scanDuration_component {component : Component} (hnumber : component.number < 2 ^ 64)
    (rest : List Char) :
    scanDuration overflowChecks s total [] found (component.text ++ rest) =
      if overflowChecks ∧ 2 ^ 64 ≤ total.toNat + component.secs then none
      else scanDuration overflowChecks s (UInt64.ofNat (total.toNat + component.secs)) [] true
        rest := by
  have hread : Radix.fromStrRadix (2 ^ 64) 10 component.digits = some component.number := by
    rw [Radix.fromStrRadix_of_digits component.digits_isDigit component.digits_ne_nil]
    exact if_pos hnumber
  rw [Component.text, List.append_assoc, scanDuration_digits _ _ _ _ component.digits_isDigit,
    List.nil_append, List.singleton_append, scanDuration, component.unit.not_isDigit_char,
    if_neg Bool.false_ne_true, component.unit.ofChar_char]
  simp only [hread]
  rw [component.unit.addTo_eq overflowChecks total hnumber]
  by_cases hover : overflowChecks = true ∧ 2 ^ 64 ≤ total.toNat + component.secs
  · rw [if_pos hover]
    exact congrArg (Option.bind · _) (if_pos hover)
  · rw [if_neg hover]
    exact congrArg (Option.bind · _) (if_neg hover)

/-- The loop over components.  Whatever the intermediate sums are, the outcome is that of the
whole sum. -/
theorem scanDuration_components {components : List Component}
    (hnumbers : ∀ component ∈ components, component.number < 2 ^ 64) (rest : List Char) :
    scanDuration overflowChecks s total [] found (durationText components ++ rest) =
      if overflowChecks ∧ 2 ^ 64 ≤ total.toNat + totalSecs components then none
      else scanDuration overflowChecks s (UInt64.ofNat (total.toNat + totalSecs components)) []
        (found || !components.isEmpty) rest := by
  induction components generalizing total found with
  | nil =>
      have hlt := total.toNat_lt
      have hnot : ¬ (overflowChecks = true ∧ 2 ^ 64 ≤ total.toNat + totalSecs []) := by
        rintro ⟨-, hle⟩
        rw [totalSecs, List.map_nil, List.sum_nil] at hle
        omega
      rw [if_neg hnot]
      simp [durationText, totalSecs]
  | cons component components ih =>
      rw [List.forall_mem_cons] at hnumbers
      have hsum : totalSecs (component :: components) = component.secs + totalSecs components := rfl
      rw [durationText, List.flatMap_cons, List.append_assoc,
        scanDuration_component overflowChecks s total found hnumbers.1]
      by_cases hover : overflowChecks = true ∧ 2 ^ 64 ≤ total.toNat + component.secs
      · rw [if_pos hover, if_pos ⟨hover.1, by omega⟩]
      · rw [if_neg hover]
        have hwraps : overflowChecks = true ∧ 2 ^ 64 ≤
            (UInt64.ofNat (total.toNat + component.secs)).toNat + totalSecs components ↔
            overflowChecks = true ∧ 2 ^ 64 ≤ total.toNat + totalSecs (component :: components) := by
          refine and_congr_right fun hchecks => ?_
          rw [UInt64.toNat_ofNat_of_lt' (not_le.mp fun hle => hover ⟨hchecks, hle⟩)]
          omega
        -- wrapping at every sum is wrapping once at the end
        have htotal : UInt64.ofNat ((UInt64.ofNat (total.toNat + component.secs)).toNat +
            totalSecs components) =
            UInt64.ofNat (total.toNat + totalSecs (component :: components)) := by
          rw [← UInt64.toNat_inj, UInt64.toNat_ofNat', UInt64.toNat_ofNat', UInt64.toNat_ofNat']
          omega
        calc
          scanDuration overflowChecks s (UInt64.ofNat (total.toNat + component.secs)) [] true
              (durationText components ++ rest)
            = if overflowChecks ∧ 2 ^ 64 ≤ total.toNat + totalSecs (component :: components)
              then none
              else scanDuration overflowChecks s
                (UInt64.ofNat (total.toNat + totalSecs (component :: components))) [] true
                rest := by
              rw [ih _ true hnumbers.2, htotal, Bool.true_or]
              exact if_congr hwraps rfl rfl
          _ = _ := by simp

end Scan

/-- Behind its components a text is at its end, or the loop stops with an error. -/
theorem exists_components (text : List Char) :
    ∃ components rest, text = durationText components ++ rest ∧
      (∀ component ∈ components, component.number < 2 ^ 64) ∧
      (rest = [] ∨ ∀ overflowChecks s total found,
        ∃ error, scanDuration overflowChecks s total [] found rest = some (.error error)) := by
  have hdigits : ∀ c ∈ text.takeWhile isDigit, isDigit c = true := fun c => List.mem_takeWhile_imp
  have htext : text.takeWhile isDigit ++ text.dropWhile isDigit = text :=
    List.takeWhile_append_dropWhile
  -- where the loop stops with an error, the rest is the whole text
  have hstops : (∀ overflowChecks s total found, ∃ error,
      scanDuration overflowChecks s total [] found text = some (.error error)) →
      ∃ components rest, text = durationText components ++ rest ∧
        (∀ component ∈ components, component.number < 2 ^ 64) ∧
        (rest = [] ∨ ∀ overflowChecks s total found,
          ∃ error, scanDuration overflowChecks s total [] found rest = some (.error error)) :=
    fun herror => ⟨[], text, rfl, by simp, Or.inr herror⟩
  cases hbehind : text.dropWhile isDigit with
  | nil =>
      rw [hbehind, List.append_nil] at htext
      by_cases hnil : text = []
      · exact ⟨[], [], hnil, by simp, Or.inl rfl⟩
      · apply hstops
        intro overflowChecks s total found
        have hscan := scanDuration_digits overflowChecks s total found hdigits [] []
        rw [htext, List.append_nil, List.nil_append] at hscan
        rw [hscan, scanDuration, if_pos hnil]
        exact ⟨_, rfl⟩
  | cons ch tail =>
      have hch : isDigit ch = false := by
        have hhead := List.head?_dropWhile_not isDigit text
        simpa [hbehind] using hhead
      have hscan : ∀ overflowChecks s total found,
          scanDuration overflowChecks s total [] found text =
            scanDuration overflowChecks s total (text.takeWhile isDigit) found (ch :: tail) := by
        intro overflowChecks s total found
        have h := scanDuration_digits overflowChecks s total found hdigits [] (ch :: tail)
        rwa [← hbehind, htext, List.nil_append, hbehind] at h
      cases hunit : TimeUnit.ofChar ch with
      | none =>
          apply hstops
          intro overflowChecks s total found
          rw [hscan, scanDuration, hch, if_neg Bool.false_ne_true, hunit]
          exact ⟨_, rfl⟩
      | some unit =>
          cases hread : Radix.fromStrRadix (2 ^ 64) 10 (text.takeWhile isDigit) with
          | none =>
              apply hstops
              intro overflowChecks s total found
              rw [hscan, scanDuration, hch, if_neg Bool.false_ne_true, hunit]
              simp only [hread]
              exact ⟨_, rfl⟩
          | some n =>
              have hne : text.takeWhile isDigit ≠ [] := by
                intro hnil
                rw [hnil] at hread
                cases hread
              have hnumber : Nat.ofDigitChars 10 (text.takeWhile isDigit) 0 < 2 ^ 64 := by
                rw [Radix.fromStrRadix_of_digits hdigits hne] at hread
                by_contra hle
                rw [if_neg hle] at hread
                cases hread
              have hlength : tail.length < text.length := by
                rw [← htext, hbehind, List.length_append, List.length_cons]
                omega
              obtain ⟨components, rest, htail, hnumbers, hrest⟩ := exists_components tail
              refine ⟨⟨text.takeWhile isDigit, unit, hne, hdigits⟩ :: components, rest, ?_,
                List.forall_mem_cons.mpr ⟨hnumber, hnumbers⟩, hrest⟩
              calc
                text = text.takeWhile isDigit ++ unit.char :: tail := by
                  rw [← TimeUnit.char_of_ofChar hunit, ← hbehind, htext]
                _ = _ := by
                  rw [htail, durationText, durationText, List.flatMap_cons, Component.text]
                  simp only [List.append_assoc, List.cons_append, List.nil_append]
termination_by text.length

/-! ## One reading only -/

theorem Component.takeWhile_text (component : Component) (rest : List Char) :
    (component.text ++ rest).takeWhile isDigit = component.digits := by
  rw [Component.text, List.append_assoc, List.takeWhile_append_of_pos component.digits_isDigit,
    List.singleton_append, List.takeWhile_cons_of_neg (by simp [component.unit.not_isDigit_char]),
    List.append_nil]

theorem Component.text_append_inj {first second : Component} {rest other : List Char}
    (htext : first.text ++ rest = second.text ++ other) : first = second ∧ rest = other := by
  have hdigits : first.digits = second.digits := by
    rw [← first.takeWhile_text rest, htext, second.takeWhile_text]
  simp only [Component.text, hdigits, List.append_assoc, List.singleton_append,
    List.append_cancel_left_eq, List.cons.injEq] at htext
  exact ⟨Component.ext hdigits (TimeUnit.char_injective htext.1), htext.2⟩

/-- A text has its components in one way. -/
theorem durationText_injective : Function.Injective durationText := by
  intro first second htext
  induction first generalizing second with
  | nil =>
      cases second with
      | nil => rfl
      | cons component components => simp [durationText, Component.text] at htext
  | cons component components ih =>
      cases second with
      | nil => simp [durationText, Component.text] at htext
      | cons other others =>
          obtain ⟨rfl, hrest⟩ := Component.text_append_inj htext
          rw [ih hrest]

/-! ## The grammar and the parser -/

theorem zero_add_totalSecs (components : List Component) :
    (0 : UInt64).toNat + totalSecs components = totalSecs components :=
  Nat.zero_add _

/-- A text of the grammar, with numbers that fit. -/
theorem parseDuration_of_matches {s : String} {components : List Component}
    (hmatches : Matches s components)
    (hnumbers : ∀ component ∈ components, component.number < 2 ^ 64) (overflowChecks : Bool) :
    parseDuration overflowChecks s =
      if overflowChecks ∧ 2 ^ 64 ≤ totalSecs components then none
      else some (.ok (UInt64.ofNat (totalSecs components))) := by
  have hscan := scanDuration_components overflowChecks s 0 false hnumbers []
  have hempty : components.isEmpty = false := by
    rw [List.isEmpty_eq_false_iff]
    exact hmatches.2
  rw [List.append_nil, ← hmatches.1, zero_add_totalSecs, hempty] at hscan
  exact hscan

theorem Component.secs_le_totalSecs {component : Component} {components : List Component}
    (hmem : component ∈ components) : component.secs ≤ totalSecs components :=
  List.le_sum_of_mem (List.mem_map_of_mem hmem)

theorem Component.number_le_secs (component : Component) : component.number ≤ component.secs := by
  rw [secs]
  apply Nat.le_mul_of_pos_right
  cases component.unit <;> decide

/-- A text of the grammar whose sum fits. -/
theorem parseDuration_of_fits {s : String} {components : List Component}
    (hmatches : Matches s components) (hfits : totalSecs components < 2 ^ 64)
    (overflowChecks : Bool) :
    parseDuration overflowChecks s = some (.ok (UInt64.ofNat (totalSecs components))) := by
  rw [parseDuration_of_matches hmatches, if_neg fun h => absurd h.2 (not_le.mpr hfits)]
  intro component hmem
  have hle := Component.secs_le_totalSecs hmem
  have hnumber := component.number_le_secs
  omega

/-- What is read is the sum of the components of a text of the grammar, as a `u64`. -/
theorem matches_of_parseDuration {overflowChecks : Bool} {s : String} {total : UInt64}
    (hparse : parseDuration overflowChecks s = some (.ok total)) :
    ∃ components, Matches s components ∧ total = UInt64.ofNat (totalSecs components) := by
  obtain ⟨components, rest, htext, hnumbers, hrest⟩ := exists_components s.toList
  have hscan := scanDuration_components overflowChecks s 0 false hnumbers rest
  rw [← htext, zero_add_totalSecs] at hscan
  rw [parseDuration, hscan] at hparse
  split_ifs at hparse with hpanics
  rcases hrest with rfl | herror
  · have hne : components ≠ [] := by
      rintro rfl
      cases hparse
    have hempty : components.isEmpty = false := List.isEmpty_eq_false_iff.mpr hne
    rw [scanDuration, if_neg (by simp), hempty, if_neg (by simp), Option.some.injEq,
      Except.ok.injEq] at hparse
    rw [List.append_nil] at htext
    exact ⟨components, ⟨htext, hne⟩, hparse.symm⟩
  · obtain ⟨error, hstops⟩ := herror overflowChecks s
      (UInt64.ofNat (totalSecs components)) (false || !components.isEmpty)
    rw [hstops] at hparse
    cases hparse

/-- **Durations.**  The parser is as its grammar unless the sum overflows. -/
theorem specified_iff (overflowChecks : Bool) (s : String) :
    IsSpecified overflowChecks s ↔ ¬ SumOverflows overflowChecks s := by
  constructor
  · rintro ⟨-, herror⟩ ⟨components, rest, htext, hrest, hnumbers, hsum⟩
    cases overflowChecks with
    | true =>
        -- a panic is neither a duration nor an error
        have hpanics : parseDuration true s = none := by
          have hscan := scanDuration_components true s 0 false hnumbers rest
          rw [← htext, zero_add_totalSecs, if_pos ⟨rfl, hsum⟩] at hscan
          exact hscan
        obtain ⟨error, hparse⟩ := herror fun ⟨others, hmatches, hfits⟩ => by
          rw [parseDuration_of_fits hmatches hfits] at hpanics
          cases hpanics
        rw [hpanics] at hparse
        cases hparse
    | false =>
        rw [hrest rfl, List.append_nil] at htext
        have hne : components ≠ [] := by
          rintro rfl
          rw [totalSecs, List.map_nil, List.sum_nil] at hsum
          omega
        -- a text has one reading, and this one does not fit
        obtain ⟨error, hparse⟩ := herror fun ⟨others, hmatches, hfits⟩ => by
          rw [durationText_injective (htext.symm.trans hmatches.1)] at hsum
          omega
        rw [parseDuration_of_matches ⟨htext, hne⟩ hnumbers, if_neg (by simp)] at hparse
        cases hparse
  · intro hfits
    refine ⟨fun components hmatches hsum => parseDuration_of_fits hmatches hsum overflowChecks, ?_⟩
    intro hnone
    obtain ⟨components, rest, htext, hnumbers, hrest⟩ := exists_components s.toList
    have hscan := scanDuration_components overflowChecks s 0 false hnumbers rest
    rw [← htext, zero_add_totalSecs] at hscan
    rcases hrest with rfl | herror
    · have hmatch : s.toList = durationText components := by rw [htext, List.append_nil]
      by_cases hnil : components = []
      · subst hnil
        have hnot : ¬ (overflowChecks = true ∧ 2 ^ 64 ≤ totalSecs []) := fun h =>
          absurd h.2 (by decide)
        rw [if_neg hnot] at hscan
        exact ⟨_, hscan⟩
      · have hlt : totalSecs components < 2 ^ 64 := by
          by_contra hle
          exact hfits ⟨components, [], htext, fun _ => rfl, hnumbers, not_lt.mp hle⟩
        exact absurd ⟨components, ⟨hmatch, hnil⟩, hlt⟩ hnone
    · have hnot : ¬ (overflowChecks = true ∧ 2 ^ 64 ≤ totalSecs components) := by
        rintro ⟨rfl, hle⟩
        exact hfits ⟨components, rest, htext, by simp, hnumbers, hle⟩
      rw [if_neg hnot] at hscan
      rw [parseDuration, hscan]
      exact herror _ _ _ _

/-- Hours that are just too many wrap to an hour less a few seconds, or panic. -/
theorem specified_hours :
    parseDuration false "5124095576030432h" = some (.ok 3584) ∧
      parseDuration true "5124095576030432h" = none ∧
      ¬ IsSpecified false "5124095576030432h" ∧ ¬ IsSpecified true "5124095576030432h" := by
  have hwraps : parseDuration false "5124095576030432h" = some (.ok 3584) := by decide
  have hpanics : parseDuration true "5124095576030432h" = none := by decide
  have hnone : ¬ ∃ components, Matches "5124095576030432h" components ∧
      totalSecs components < 2 ^ 64 := by
    rintro ⟨components, hmatches, hfits⟩
    rw [parseDuration_of_fits hmatches hfits] at hpanics
    cases hpanics
  refine ⟨hwraps, hpanics, ?_, ?_⟩
  · rintro ⟨-, herror⟩
    obtain ⟨error, hparse⟩ := herror hnone
    rw [hwraps] at hparse
    cases hparse
  · rintro ⟨-, herror⟩
    obtain ⟨error, hparse⟩ := herror hnone
    rw [hpanics] at hparse
    cases hparse

end Modo.Cron
