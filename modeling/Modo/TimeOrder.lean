import Modo.Time

/-!
# The order of the stored texts

A comparison of two stored timestamps in SQL compares their texts.
`textLT_iff_lt` says for which instants this is the chronological order: those
of one year, and those whose years have texts in order (`YearsOrdered`), which
is so when the later year is one of 0 to 9999.  The text is a year, a sequence
of numbers of fixed width, from the month down to the second, and then a
fraction without trailing zeros:

* `civil_lt` says that the calendar date is increasing in the day number, from
  the facts that `yearOfEra` is monotone and changes at `yearStart`;
* `yearText_lt` compares years, which outside 0 to 9999 have a sign and differ in
  width;
* `fractionText_lt` compares the fractions, where `'+'`, which follows, stands
  below `'.'` and below the digits.
-/

namespace Modo

open Decimal (digits)

namespace DateTime

/-! ## The calendar -/

theorem yearOfEra_mono {d e : ℕ} (hle : d ≤ e) (he : e < 146097) :
    yearOfEra d ≤ yearOfEra e := by
  unfold yearOfEra
  apply Nat.div_le_div_right
  omega

theorem yearOfEra_le {d : ℕ} (hd : d < 146097) : yearOfEra d ≤ 399 := by
  unfold yearOfEra
  omega

/-- Each year of the cycle begins on its first day. -/
theorem yearOfEra_yearStart : ∀ year < 400, yearOfEra (yearStart year) = year := by
  decide +kernel

/-- The day before belongs to the year before. -/
theorem yearOfEra_pred_yearStart :
    ∀ year < 399, yearOfEra (yearStart (year + 1) - 1) = year := by
  decide +kernel

theorem yearStart_succ (year : ℕ) :
    yearStart year + 365 ≤ yearStart (year + 1) ∧ yearStart (year + 1) ≤ yearStart year + 366 := by
  unfold yearStart
  omega

/-- A day lies in its year. -/
theorem yearStart_yearOfEra {d : ℕ} (hd : d < 146097) :
    yearStart (yearOfEra d) ≤ d ∧ d ≤ yearStart (yearOfEra d) + 365 := by
  have hyear := yearOfEra_le hd
  generalize hy : yearOfEra d = y at hyear ⊢
  constructor
  · by_contra hbefore
    cases y with
    | zero => simp [yearStart] at hbefore
    | succ y =>
        have hsucc := yearStart_succ y
        have hend := yearOfEra_pred_yearStart y (by omega)
        have hstart := yearOfEra_mono (show d ≤ yearStart (y + 1) - 1 by omega)
          (lt_of_le_of_lt (show yearStart (y + 1) - 1 ≤ 146096 by unfold yearStart; omega)
            (by decide))
        omega
  · by_contra hafter
    have hsucc := yearStart_succ y
    by_cases hlast : y = 399
    · subst hlast
      have hend : yearStart 399 = 145731 := rfl
      omega
    · have hbegin := yearOfEra_yearStart (y + 1) (by omega)
      have hnext := yearOfEra_mono (show yearStart (y + 1) ≤ d by omega) hd
      omega

/-- Lexicographic order of dates. -/
def dateLT (a b : ℤ × ℕ × ℕ) : Prop :=
  a.1 < b.1 ∨ a.1 = b.1 ∧ (a.2.1 < b.2.1 ∨ a.2.1 = b.2.1 ∧ a.2.2 < b.2.2)

/-- The year of a day, counted from March. -/
def marchYear (day : ℤ) : ℤ :=
  yearOfEra ((day + 719468) % 146097).toNat + (day + 719468) / 146097 * 400

/-- The number of a day inside the year that begins in March. -/
def dayOfYear (day : ℤ) : ℕ :=
  ((day + 719468) % 146097).toNat - yearStart (yearOfEra ((day + 719468) % 146097).toNat)

theorem dayOfEra_lt (day : ℤ) : ((day + 719468) % 146097).toNat < 146097 := by
  omega

theorem dayOfYear_le (day : ℤ) : dayOfYear day ≤ 365 := by
  have hday := (yearStart_yearOfEra (dayOfEra_lt day)).2
  unfold dayOfYear
  omega

/-- A later day is one of a later year, or a later day of the same year. -/
theorem marchYear_lt {d e : ℤ} (hlt : d < e) :
    marchYear d < marchYear e ∨ marchYear d = marchYear e ∧ dayOfYear d < dayOfYear e := by
  have hera : (d + 719468) / 146097 < (e + 719468) / 146097 ∨
      (d + 719468) / 146097 = (e + 719468) / 146097 ∧
        ((d + 719468) % 146097).toNat < ((e + 719468) % 146097).toNat := by omega
  have hdYear := yearOfEra_le (dayOfEra_lt d)
  have hstart := (yearStart_yearOfEra (dayOfEra_lt d)).1
  unfold marchYear dayOfYear
  rcases hera with hera | ⟨hera, hday⟩
  · left
    omega
  · rw [hera]
    -- inside one cycle the years are monotone, and equal years begin on the same day
    rcases (yearOfEra_mono hday.le (dayOfEra_lt e)).lt_or_eq with hyear | hyear
    · left
      omega
    · right
      rw [hyear] at hstart ⊢
      exact ⟨rfl, Nat.sub_lt_sub_right hstart hday⟩

/-- Month, counted from March, and day of the month increase with the day of the year. -/
theorem month_lt {i j : ℕ} (hlt : i < j) :
    (5 * i + 2) / 153 < (5 * j + 2) / 153 ∨
      (5 * i + 2) / 153 = (5 * j + 2) / 153 ∧
        i - (153 * ((5 * i + 2) / 153) + 2) / 5 < j - (153 * ((5 * j + 2) / 153) + 2) / 5 := by
  omega

theorem month_le (day : ℤ) : (5 * dayOfYear day + 2) / 153 ≤ 11 := by
  have hle := dayOfYear_le day
  omega

theorem civil_eq (day : ℤ) :
    civil day = (
      if (5 * dayOfYear day + 2) / 153 < 10 then marchYear day else marchYear day + 1,
      if (5 * dayOfYear day + 2) / 153 < 10 then (5 * dayOfYear day + 2) / 153 + 3
        else (5 * dayOfYear day + 2) / 153 - 9,
      dayOfYear day - (153 * ((5 * dayOfYear day + 2) / 153) + 2) / 5 + 1) := rfl

/-- Later days have later dates. -/
theorem civil_lt {d e : ℤ} (hlt : d < e) : dateLT (civil d) (civil e) := by
  have hdMonth := month_le d
  have heMonth := month_le e
  have hmonth := month_lt (i := dayOfYear d) (j := dayOfYear e)
  rw [civil_eq, civil_eq]
  unfold dateLT
  dsimp only
  generalize (5 * dayOfYear d + 2) / 153 = dMonth at *
  generalize (5 * dayOfYear e + 2) / 153 = eMonth at *
  rcases marchYear_lt hlt with hyear | ⟨hyear, hday⟩
  · -- January and February of a year stand before its March
    split_ifs <;> omega
  · specialize hmonth hday
    split_ifs <;> omega

/-- Months and days have two digits. -/
theorem civil_bounds (d : ℤ) : (civil d).2.1 < 10 ^ 2 ∧ (civil d).2.2 < 10 ^ 2 := by
  have hd : ((d + 719468) % 146097).toNat < 146097 := by omega
  obtain ⟨hlow, hhigh⟩ := yearStart_yearOfEra hd
  simp only [civil]
  constructor
  · split <;> omega
  · omega

/-- The days of the years 0 to 9999. -/
theorem civil_year {d : ℤ} (hlow : -719528 ≤ d) (hhigh : d ≤ 2932896) :
    0 ≤ (civil d).1 ∧ (civil d).1 ≤ 9999 := by
  have hfirst : civil (-719528) = (0, 1, 1) := by decide
  have hlast : civil 2932896 = (9999, 12, 31) := by decide
  constructor
  · rcases hlow.lt_or_eq with hlt | rfl
    · have hdate := civil_lt hlt
      rw [dateLT, hfirst] at hdate
      omega
    · exact (by rw [hfirst])
  · rcases hhigh.lt_or_eq with hlt | rfl
    · have hdate := civil_lt hlt
      rw [dateLT, hlast] at hdate
      omega
    · exact (by rw [hlast])

/-! ## The fraction -/

/-- A fraction is a point and its digits without trailing groups of zeros. -/
theorem fractionText_eq {n : ℕ} (hn : 0 < n) :
    ∃ k i, k + i = 9 ∧ 10 ^ i ∣ n ∧ fractionText n = '.' :: digits k (n / 10 ^ i) := by
  unfold fractionText
  rw [if_neg hn.ne']
  split
  · exact ⟨3, 6, rfl, Nat.dvd_of_mod_eq_zero ‹_›, rfl⟩
  · split
    · exact ⟨6, 3, rfl, Nat.dvd_of_mod_eq_zero ‹_›, rfl⟩
    · exact ⟨9, 0, rfl, one_dvd n, by rw [pow_zero, Nat.div_one]⟩

/-- Fractions, followed by the offset, compare as the numbers do. -/
theorem fractionText_lt {m n : ℕ} (hlt : m < n) (hn : n < 1_000_000_000)
    (rest rest' : List Char) :
    fractionText m ++ '+' :: rest < fractionText n ++ '+' :: rest' := by
  obtain ⟨l, j, hl, hdvd, htext⟩ := fractionText_eq (Nat.zero_lt_of_lt hlt)
  rw [htext, List.cons_append]
  rcases Nat.eq_zero_or_pos m with rfl | hm
  · -- `'+'` against the point
    exact List.cons_lt_cons_iff.mpr (Or.inl (by decide))
  · obtain ⟨k, i, hk, hdvd', htext'⟩ := fractionText_eq hm
    rw [htext', List.cons_append, List.cons_lt_cons_iff]
    refine Or.inr ⟨rfl, Decimal.fraction_lt (by decide) (hk.trans hl.symm) hdvd' hdvd hlt ?_ _ _⟩
    rw [hl]
    exact hn

/-! ## The year -/

/-- The number of digits in the text of a year. -/
def yearWidth (year : ℤ) : ℕ :=
  if year.natAbs ≤ 9999 then 4 else (Nat.toDigits 10 year.natAbs).length

theorem yearText_of_range {year : ℤ} (hrange : 0 ≤ year ∧ year ≤ 9999) :
    yearText year = digits 4 year.natAbs := by
  rw [yearText, if_pos hrange, show year.toNat = year.natAbs by omega]

/-- A year out of range is written with its sign. -/
theorem yearText_of_not_range {year : ℤ} (hrange : ¬ (0 ≤ year ∧ year ≤ 9999)) :
    yearText year = (if year < 0 then '-' else '+') :: digits (yearWidth year) year.natAbs := by
  unfold yearText yearWidth
  rw [if_neg hrange]
  congr 1
  split
  · rfl
  · exact Decimal.toDigits_eq_digits _

theorem yearText_of_large {year : ℤ} (hlarge : 9999 < year) :
    yearText year = '+' :: digits (yearWidth year) year.natAbs := by
  rw [yearText_of_not_range (by omega), if_neg (by omega)]

theorem yearText_of_negative {year : ℤ} (hnegative : year < 0) :
    yearText year = '-' :: digits (yearWidth year) year.natAbs := by
  rw [yearText_of_not_range (by omega), if_pos hnegative]

theorem natAbs_lt_yearWidth (year : ℤ) : year.natAbs < 10 ^ yearWidth year := by
  unfold yearWidth
  split
  · omega
  · rw [← Nat.length_toDigits_le_iff (by decide) Nat.length_toDigits_pos]

/-- Larger years have at least as many digits. -/
theorem yearWidth_mono {y z : ℤ} (hle : y.natAbs ≤ z.natAbs) : yearWidth y ≤ yearWidth z := by
  have hz := natAbs_lt_yearWidth z
  unfold yearWidth at hz ⊢
  by_cases hzRange : z.natAbs ≤ 9999
  · rw [if_pos (hle.trans hzRange), if_pos hzRange]
  · rw [if_neg hzRange] at hz ⊢
    split
    · by_contra hshort
      have hbound : 10 ^ (Nat.toDigits 10 z.natAbs).length ≤ 10 ^ 3 :=
        Nat.pow_le_pow_right (by decide) (by omega)
      omega
    · rw [Nat.length_toDigits_le_iff (by decide) Nat.length_toDigits_pos]
      exact lt_of_le_of_lt hle hz

/-- The text of the earlier year `y` comes before the text of the later year
`z`: the later one has four digits and no sign, or the digits decide.  Above
9999 the later year may not fall below the earlier one in the digits they share,
and before the year 0, where the digits decrease, it has to exceed it. -/
def YearsOrdered (y z : ℤ) : Prop :=
  (0 ≤ z ∧ z ≤ 9999) ∨
  (9999 < y ∧ y.natAbs ≤ z.natAbs / 10 ^ (yearWidth z - yearWidth y)) ∨
  (z < 0 ∧ y.natAbs / 10 ^ (yearWidth y - yearWidth z) < z.natAbs)

instance : DecidableRel YearsOrdered := fun y z =>
  inferInstanceAs (Decidable
    ((0 ≤ z ∧ z ≤ 9999) ∨ (9999 < y ∧ y.natAbs ≤ z.natAbs / 10 ^ (yearWidth z - yearWidth y)) ∨
      (z < 0 ∧ y.natAbs / 10 ^ (yearWidth y - yearWidth z) < z.natAbs)))

/-- A year of four digits without sign comes after every earlier year. -/
theorem yearText_lt_of_range {y z : ℤ} (hlt : y < z) (hrange : 0 ≤ z ∧ z ≤ 9999)
    (rest rest' : List Char) : yearText y ++ '-' :: rest < yearText z ++ '-' :: rest' := by
  rw [yearText_of_range hrange]
  rcases lt_or_ge y 0 with hy | hy
  · rw [yearText_of_negative hy, List.cons_append]
    exact Decimal.lt_digits (by decide) (by decide) _ _ _
  · rw [yearText_of_range (by omega)]
    exact Decimal.field_lt (Or.inl (by omega)) (by omega)

/-- The digits of two years, by the leading digits of the longer ones. -/
theorem yearDigits_lt {y z : ℤ} (hlt : y.natAbs < z.natAbs) (rest rest' : List Char) :
    if y.natAbs ≤ z.natAbs / 10 ^ (yearWidth z - yearWidth y) then
      digits (yearWidth y) y.natAbs ++ '-' :: rest <
        digits (yearWidth z) z.natAbs ++ '-' :: rest'
    else
      digits (yearWidth z) z.natAbs ++ '-' :: rest' <
        digits (yearWidth y) y.natAbs ++ '-' :: rest := by
  have hyBound := natAbs_lt_yearWidth y
  have hzBound := natAbs_lt_yearWidth z
  obtain ⟨more, hmore⟩ := Nat.exists_eq_add_of_le (yearWidth_mono hlt.le)
  rw [hmore] at hzBound ⊢
  rw [Nat.add_sub_cancel_left]
  split
  · rcases Nat.eq_zero_or_pos more with rfl | hpos
    · exact Decimal.field_lt (Or.inl hlt) hzBound
    · exact Decimal.digits_lt_longer (by decide) hpos ‹_› hzBound _ _
  · exact Decimal.digits_longer_lt (by omega) hyBound _ _

/-- Two years above 9999. -/
theorem yearText_lt_of_large {y z : ℤ} (hlt : y < z) (hy : 9999 < y) (rest rest' : List Char) :
    if y.natAbs ≤ z.natAbs / 10 ^ (yearWidth z - yearWidth y) then
      yearText y ++ '-' :: rest < yearText z ++ '-' :: rest'
    else yearText z ++ '-' :: rest' < yearText y ++ '-' :: rest := by
  rw [yearText_of_large hy, yearText_of_large (hy.trans hlt)]
  simp only [List.cons_append, List.cons_lt_cons_iff, lt_irrefl, false_or, true_and]
  exact yearDigits_lt (by omega) rest rest'

/-- Two years before the year 0: the larger number stands for the earlier year. -/
theorem yearText_lt_of_negative {y z : ℤ} (hlt : y < z) (hz : z < 0) (rest rest' : List Char) :
    if y.natAbs / 10 ^ (yearWidth y - yearWidth z) < z.natAbs then
      yearText y ++ '-' :: rest < yearText z ++ '-' :: rest'
    else yearText z ++ '-' :: rest' < yearText y ++ '-' :: rest := by
  have hdigits := yearDigits_lt (show z.natAbs < y.natAbs by omega) rest' rest
  rw [yearText_of_negative hz, yearText_of_negative (hlt.trans hz)]
  simp only [List.cons_append, List.cons_lt_cons_iff, lt_irrefl, false_or, true_and]
  split
  · rwa [if_neg (by omega)] at hdigits
  · rwa [if_pos (by omega)] at hdigits

/-- Texts of different years, with what follows them: either they are ordered,
or they stand the wrong way around. -/
theorem yearText_lt {y z : ℤ} (hlt : y < z) (rest rest' : List Char) :
    if YearsOrdered y z then yearText y ++ '-' :: rest < yearText z ++ '-' :: rest'
    else yearText z ++ '-' :: rest' < yearText y ++ '-' :: rest := by
  rcases lt_or_ge z 0 with hz | hz
  · have hiff : YearsOrdered y z ↔ y.natAbs / 10 ^ (yearWidth y - yearWidth z) < z.natAbs := by
      unfold YearsOrdered
      omega
    rw [if_congr hiff rfl rfl]
    exact yearText_lt_of_negative hlt hz rest rest'
  · rcases le_or_gt z 9999 with hle | hgt
    · rw [if_pos (show YearsOrdered y z from Or.inl ⟨hz, hle⟩)]
      exact yearText_lt_of_range hlt ⟨hz, hle⟩ rest rest'
    · rcases lt_or_ge 9999 y with hy | hy
      · have hiff : YearsOrdered y z ↔ y.natAbs ≤ z.natAbs / 10 ^ (yearWidth z - yearWidth y) := by
          unfold YearsOrdered
          omega
        rw [if_congr hiff rfl rfl]
        exact yearText_lt_of_large hlt hy rest rest'
      · -- `'+'` stands below `'-'` and below the digits
        rw [if_neg (by unfold YearsOrdered; omega), yearText_of_large hgt, List.cons_append]
        rcases lt_or_ge y 0 with hnegative | hnonneg
        · rw [yearText_of_negative hnegative, List.cons_append]
          exact List.cons_lt_cons_iff.mpr (Or.inl (by decide))
        · rw [yearText_of_range ⟨hnonneg, hy⟩]
          exact Decimal.lt_digits (by decide) (by decide) _ _ _

/-! ## The text -/

/-- The year of an instant. -/
def year (t : DateTime) : ℤ := (civil (t.secs / 86400)).1

/-- The fields of the text that follow the year. -/
def afterYear (t : DateTime) : List Char :=
  digits 2 (civil (t.secs / 86400)).2.1 ++ '-' :: (
  digits 2 (civil (t.secs / 86400)).2.2 ++ 'T' :: (
  digits 2 ((t.secs % 86400).toNat / 3600) ++ ':' :: (
  digits 2 ((t.secs % 86400).toNat / 60 % 60) ++ ':' :: (
  digits 2 ((t.secs % 86400).toNat % 60 + t.nanos / 1_000_000_000) ++
  (fractionText (t.nanos % 1_000_000_000) ++ ['+', '0', '0', ':', '0', '0'])))))

theorem toRfc3339_eq (t : DateTime) : toRfc3339 t = yearText t.year ++ '-' :: t.afterYear := by
  simp only [toRfc3339, year, afterYear, List.append_assoc, List.cons_append]

/-- Seconds and fraction.  In a leap second the number of seconds is 60. -/
theorem secondText_lt {s s' n n' : ℕ} (hs' : s' < 60) (hn : n < 1_000_000_000 ∨ s = 59)
    (hn' : n' < 2_000_000_000) (hlt : s < s' ∨ s = s' ∧ n < n') (rest : List Char) :
    digits 2 (s + n / 1_000_000_000) ++ (fractionText (n % 1_000_000_000) ++ '+' :: rest) <
      digits 2 (s' + n' / 1_000_000_000) ++ (fractionText (n' % 1_000_000_000) ++ '+' :: rest) := by
  have hcases : s + n / 1_000_000_000 < s' + n' / 1_000_000_000 ∨
      s + n / 1_000_000_000 = s' + n' / 1_000_000_000 ∧
        n % 1_000_000_000 < n' % 1_000_000_000 := by omega
  rcases hcases with hless | ⟨heq, hfraction⟩
  · exact Decimal.append_lt_append (by simp) (Decimal.digits_lt hless (by omega)) _ _
  · rw [heq]
    exact List.append_left_lt (fractionText_lt hfraction (Nat.mod_lt _ (by decide)) _ _)

/-- Time of day. -/
theorem timeText_lt {s s' n n' : ℕ} (hs' : s' < 86400) (hn : n < 1_000_000_000 ∨ s % 60 = 59)
    (hn' : n' < 2_000_000_000) (hlt : s < s' ∨ s = s' ∧ n < n') (rest : List Char) :
    digits 2 (s / 3600) ++ ':' :: (digits 2 (s / 60 % 60) ++ ':' ::
        (digits 2 (s % 60 + n / 1_000_000_000) ++
          (fractionText (n % 1_000_000_000) ++ '+' :: rest))) <
      digits 2 (s' / 3600) ++ ':' :: (digits 2 (s' / 60 % 60) ++ ':' ::
        (digits 2 (s' % 60 + n' / 1_000_000_000) ++
          (fractionText (n' % 1_000_000_000) ++ '+' :: rest))) := by
  have hcases : s / 3600 < s' / 3600 ∨ s / 3600 = s' / 3600 ∧
      (s / 60 % 60 < s' / 60 % 60 ∨ s / 60 % 60 = s' / 60 % 60 ∧
        (s % 60 < s' % 60 ∨ s % 60 = s' % 60 ∧ n < n')) := by omega
  refine Decimal.field_lt (hcases.imp_right (And.imp_right fun hminute => ?_)) (by omega)
  refine Decimal.field_lt (hminute.imp_right (And.imp_right fun hsecond => ?_)) (by omega)
  exact secondText_lt (Nat.mod_lt _ (by decide)) hn hn' hsecond rest

/-- Within a year the texts compare as the instants do. -/
theorem afterYear_lt {a b : DateTime} (hyear : a.year = b.year) (hlt : a < b) :
    a.afterYear < b.afterYear := by
  rw [lt_def] at hlt
  obtain ⟨hbMonth, hbDay⟩ := civil_bounds (b.secs / 86400)
  unfold afterYear
  -- the date decides, or else the time of day does
  by_cases hday : a.secs / 86400 < b.secs / 86400
  · have hdate := civil_lt hday
    unfold dateLT at hdate
    unfold year at hyear
    rcases hdate with hless | ⟨-, hmonth⟩
    · omega
    · refine Decimal.field_lt (hmonth.imp_right (And.imp_right fun hday => ?_)) hbMonth
      exact Decimal.field_lt (Or.inl hday) hbDay
  · have hsame : a.secs / 86400 = b.secs / 86400 := by omega
    have haValid := a.valid
    have hbValid := b.valid
    rw [hsame]
    refine Decimal.field_lt (Or.inr ⟨rfl, ?_⟩) hbMonth
    refine Decimal.field_lt (Or.inr ⟨rfl, ?_⟩) hbDay
    exact timeText_lt (by omega) (by omega) (by omega) (by omega) _

/-- An earlier instant has no later year. -/
theorem year_le {a b : DateTime} (hlt : a < b) : a.year ≤ b.year := by
  rw [lt_def] at hlt
  unfold year
  by_cases hday : a.secs / 86400 < b.secs / 86400
  · have hdate := civil_lt hday
    unfold dateLT at hdate
    omega
  · rw [show a.secs / 86400 = b.secs / 86400 by omega]

/-- The texts of two instants are in chronological order: the instants lie in
one year, or the texts of their years are ordered. -/
def Comparable (a b : DateTime) : Prop :=
  a.year = b.year ∨ (a.year < b.year ∧ YearsOrdered a.year b.year) ∨
    (b.year < a.year ∧ YearsOrdered b.year a.year)

instance : DecidableRel Comparable := fun a b =>
  inferInstanceAs (Decidable
    (a.year = b.year ∨ (a.year < b.year ∧ YearsOrdered a.year b.year) ∨
      (b.year < a.year ∧ YearsOrdered b.year a.year)))

theorem Comparable.symm {a b : DateTime} (hab : Comparable a b) : Comparable b a := by
  rcases hab with heq | hless | hgreater
  · exact Or.inl heq.symm
  · exact Or.inr (Or.inr hless)
  · exact Or.inr (Or.inl hgreater)

/-- The texts of an earlier and a later instant are in order when the two are
comparable, and in reverse order when not. -/
theorem textLT_of_lt {a b : DateTime} (hlt : a < b) :
    if Comparable a b then a.textLT b else b.textLT a := by
  unfold textLT
  rw [toRfc3339_eq, toRfc3339_eq]
  rcases (year_le hlt).lt_or_eq with hyear | hyear
  · have hiff : Comparable a b ↔ YearsOrdered a.year b.year := by
      simp [Comparable, hyear, hyear.ne, lt_asymm hyear]
    rw [if_congr hiff rfl rfl]
    exact yearText_lt hyear _ _
  · rw [if_pos (show Comparable a b from Or.inl hyear), hyear]
    apply List.append_left_lt
    rw [List.cons_lt_cons_iff]
    exact Or.inr ⟨rfl, afterYear_lt hyear hlt⟩

/-- Instants are linearly ordered. -/
theorem lt_trichotomy (a b : DateTime) : a < b ∨ a = b ∨ b < a := by
  rcases eq_or_ne a b with rfl | hne
  · exact Or.inr (Or.inl rfl)
  · have hnanos : a.secs = b.secs → a.nanos ≠ b.nanos := by
      intro hsecs hnanos
      cases a
      cases b
      simp_all
    rw [lt_def, lt_def]
    omega

/-- **Stored texts compare as instants do** exactly when the instants are
comparable. -/
theorem textLT_iff_lt (a b : DateTime) : (a.textLT b ↔ a < b) ↔ Comparable a b := by
  rcases lt_trichotomy a b with hlt | rfl | hgt
  · have htext := textLT_of_lt hlt
    split at htext
    · simp [*]
    · have hreverse : ¬ a.textLT b := List.lt_asymm htext
      simp [*]
  · have hself : ¬ a.textLT a := List.lt_irrefl _
    have hsame : Comparable a a := Or.inl rfl
    simp [hself, hsame]
  · have htext := textLT_of_lt hgt
    have hnot : ¬ a < b := lt_asymm hgt
    split at htext
    · have hreverse : ¬ a.textLT b := List.lt_asymm htext
      simp [hreverse, hnot, Comparable.symm ‹_›]
    · have hback : ¬ Comparable a b := fun hab => ‹¬ Comparable b a› hab.symm
      simp [htext, hnot, hback]

theorem textLE_iff_le {a b : DateTime} (hab : Comparable a b) : a.textLE b ↔ a ≤ b := by
  unfold textLE
  rw [← textLT, (textLT_iff_lt b a).mpr hab.symm]
  rcases lt_trichotomy a b with hlt | rfl | hgt
  · exact iff_of_true (lt_asymm hlt) hlt.le
  · exact iff_of_true (lt_irrefl a) le_rfl
  · exact iff_of_false (not_not_intro hgt) (not_le_of_gt hgt)

/-- Instants of the years 0 to 9999 are comparable. -/
theorem comparable_of_range {a b : DateTime} (ha : -62167219200 ≤ a.secs ∧ a.secs < 253402300800)
    (hb : -62167219200 ≤ b.secs ∧ b.secs < 253402300800) : Comparable a b := by
  have haYear : 0 ≤ a.year ∧ a.year ≤ 9999 := civil_year (by omega) (by omega)
  have hbYear : 0 ≤ b.year ∧ b.year ≤ 9999 := civil_year (by omega) (by omega)
  rcases Int.lt_trichotomy a.year b.year with hlt | heq | hgt
  · exact Or.inr (Or.inl ⟨hlt, Or.inl hbYear⟩)
  · exact Or.inl heq
  · exact Or.inr (Or.inr ⟨hgt, Or.inl haYear⟩)

/-- In the years 0 to 9999 stored texts compare as instants do. -/
theorem textLT_iff {a b : DateTime} (ha : -62167219200 ≤ a.secs ∧ a.secs < 253402300800)
    (hb : -62167219200 ≤ b.secs ∧ b.secs < 253402300800) : a.textLT b ↔ a < b :=
  (textLT_iff_lt a b).mpr (comparable_of_range ha hb)

end DateTime

end Modo
