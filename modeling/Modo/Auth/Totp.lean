import Mathlib.Tactic.NormNum

/-!
# One-time passwords

`auth::totp` writes a code for the time step of a timestamp (`generate_at`) and accepts the
codes of the steps in a window around it (`verify_at`).  HMAC-SHA1 is a parameter that returns
20 bytes.

The division by `step_secs`, the power of ten and the end of the window are machine
arithmetic.  `checks` says whether the build checks it for overflow: a `Fault` is a panic.
Nothing checks the configuration, so every value of the three numbers arrives here.

`codeOf` is the code of a step where nothing faults; `generateAt_eq` and `verifyAt_eq` say
what the two functions compute with it.
-/

namespace Modo.Auth

/-- A panic of the arithmetic. -/
inductive Fault where
  | divideByZero
  | overflow
  deriving DecidableEq, Repr

/-- `x / y`, and `x % y`, panic on zero in every build. -/
def checkedDiv (x y : UInt64) : Except Fault UInt64 :=
  if y = 0 then .error .divideByZero else .ok (x / y)

def checkedRem (x y : UInt32) : Except Fault UInt32 :=
  if y = 0 then .error .divideByZero else .ok (x % y)

/-- `x + y`. -/
def checkedAdd (checks : Bool) (x y : UInt64) : Except Fault UInt64 :=
  if checks ∧ 2 ^ 64 ≤ x.toNat + y.toNat then .error .overflow else .ok (x + y)

/-- `10u32.pow(n)`. -/
def powTen (checks : Bool) (n : UInt32) : Except Fault UInt32 :=
  if checks ∧ 2 ^ 32 ≤ 10 ^ n.toNat then .error .overflow else .ok (UInt32.ofNat (10 ^ n.toNat))

/-- `saturating_sub`. -/
def saturatingSub (x y : UInt64) : UInt64 := if y ≤ x then x - y else 0

/-- `start..=end`. -/
def rangeInclusive (first last : UInt64) : List UInt64 :=
  (List.range' first.toNat (last.toNat + 1 - first.toNat)).map UInt64.ofNat

/-- `TotpConfig`. -/
structure TotpConfig where
  digits : UInt32 := 6
  stepSecs : UInt64 := 30
  window : UInt32 := 1
  deriving DecidableEq

/-- `Totp`. -/
structure Totp where
  secret : List UInt8
  config : TotpConfig
  deriving DecidableEq

/-- HMAC-SHA1 of a key and a message. -/
abbrev HmacSha1 := List UInt8 → List UInt8 → Vector UInt8 20

/-- `counter.to_be_bytes()`. -/
def toBeBytes (counter : UInt64) : List UInt8 :=
  [56, 48, 40, 32, 24, 16, 8, 0].map fun shift : UInt64 => (counter >>> shift).toUInt8

/-- `u32::from_be_bytes`. -/
def fromBeBytes (a b c d : UInt8) : UInt32 :=
  a.toUInt32 <<< 24 ||| b.toUInt32 <<< 16 ||| c.toUInt32 <<< 8 ||| d.toUInt32

theorem offset_lt (byte : UInt8) : (byte &&& 0x0f).toNat < 16 := by
  rw [UInt8.toNat_and]
  exact Nat.and_lt_two_pow _ (n := 4) (by decide)

/-- The four bytes of `result` at the offset its last byte names. -/
def truncate (result : Vector UInt8 20) : UInt32 :=
  let offset := (result[19] &&& 0x0f).toNat
  have hoffset : offset < 16 := offset_lt _
  fromBeBytes (result[offset] &&& 0x7f) result[offset + 1] result[offset + 2] result[offset + 3]

section Codes

variable (hmac : HmacSha1) (checks : Bool)

/-- `hotp`. -/
def hotp (secret : List UInt8) (counter : UInt64) (digits : UInt32) : Except Fault UInt32 := do
  let code := truncate (hmac secret (toBeBytes counter))
  let modulus ← powTen checks digits
  checkedRem code modulus

/-- `format!("{:0>width$}", code, width = digits as usize)`. -/
def zeroPadded (digits code : UInt32) : List Char :=
  (Nat.toDigits 10 code.toNat).leftpad digits.toNat '0'

/-- `Totp::new`. -/
def Totp.new (secret : List UInt8) (config : TotpConfig) : Totp := ⟨secret, config⟩

/-- `Totp::generate_at`. -/
def Totp.generateAt (totp : Totp) (timestamp : UInt64) : Except Fault (List Char) := do
  let counter ← checkedDiv timestamp totp.config.stepSecs
  let code ← hotp hmac checks totp.secret counter totp.config.digits
  return zeroPadded totp.config.digits code

/-- The code of a step. -/
def Totp.codeAt (totp : Totp) (step : UInt64) : Except Fault (List Char) := do
  let code ← hotp hmac checks totp.secret step totp.config.digits
  return zeroPadded totp.config.digits code

/-- One turn of the loop of `verify_at`.  The comparison of the bytes is that of the texts. -/
def Totp.tryStep (totp : Totp) (code : List Char) (found : Bool) (step : UInt64) :
    Except Fault Bool := do
  let expected ← hotp hmac checks totp.secret step totp.config.digits
  return found || decide (code = zeroPadded totp.config.digits expected)

/-- `Totp::verify_at`. -/
def Totp.verifyAt (totp : Totp) (code : List Char) (timestamp : UInt64) : Except Fault Bool := do
  let currentStep ← checkedDiv timestamp totp.config.stepSecs
  let window := totp.config.window.toUInt64
  let first := saturatingSub currentStep window
  let last ← checkedAdd checks currentStep window
  (rangeInclusive first last).foldlM (totp.tryStep hmac checks code) false

end Codes

/-! ## The machine arithmetic -/

theorem checkedDiv_of_pos {x y : UInt64} (hy : 1 ≤ y) : checkedDiv x y = .ok (x / y) := by
  have hne : y ≠ 0 := by
    rintro rfl
    exact absurd hy (by decide)
  rw [checkedDiv, if_neg hne]

theorem checkedAdd_of_lt {checks : Bool} {x y : UInt64} (hsum : x.toNat + y.toNat < 2 ^ 64) :
    checkedAdd checks x y = .ok (x + y) := by
  rw [checkedAdd, if_neg fun h => by omega]

theorem pow_ten_lt {n : ℕ} (hn : n ≤ 9) : 10 ^ n < 2 ^ 32 :=
  (Nat.pow_le_pow_right (by omega) hn).trans_lt (by norm_num)

theorem lt_pow_ten {n : ℕ} (hn : 10 ≤ n) : 2 ^ 32 ≤ 10 ^ n :=
  (by norm_num : 2 ^ 32 ≤ 10 ^ 10).trans (Nat.pow_le_pow_right (by omega) hn)

theorem toNat_ofNat_pow_ten {n : ℕ} (hn : n ≤ 9) : (UInt32.ofNat (10 ^ n)).toNat = 10 ^ n := by
  rw [UInt32.toNat_ofNat']
  exact Nat.mod_eq_of_lt (pow_ten_lt hn)

theorem toNat_saturatingSub (x y : UInt64) :
    (saturatingSub x y).toNat = x.toNat - y.toNat := by
  rw [saturatingSub]
  split_ifs with hle
  · exact UInt64.toNat_sub_of_le x y hle
  · have hlt : x.toNat < y.toNat := UInt64.lt_iff_toNat_lt.mp (UInt64.not_le.mp hle)
    rw [UInt64.toNat_zero]
    omega

theorem mem_rangeInclusive {first last step : UInt64} :
    step ∈ rangeInclusive first last ↔ first.toNat ≤ step.toNat ∧ step.toNat ≤ last.toNat := by
  rw [rangeInclusive, List.mem_map]
  constructor
  · intro ⟨n, hn, hstep⟩
    have hlast := last.toNat_lt
    rw [List.mem_range'_1] at hn
    rw [← hstep, UInt64.toNat_ofNat', Nat.mod_eq_of_lt (by omega)]
    omega
  · intro ⟨hfirst, hlast⟩
    refine ⟨step.toNat, ?_, UInt64.ofNat_toNat⟩
    rw [List.mem_range'_1]
    omega

/-! ## The codes -/

/-- The step is in the window around the current one. -/
def InWindow (window : UInt32) (current step : UInt64) : Prop :=
  current.toNat ≤ step.toNat + window.toNat ∧ step.toNat ≤ current.toNat + window.toNat

instance (window : UInt32) (current step : UInt64) : Decidable (InWindow window current step) :=
  inferInstanceAs (Decidable (_ ∧ _))

/-- The code of a step, where the power of ten fits the word. -/
def codeOf (hmac : HmacSha1) (totp : Totp) (step : UInt64) : List Char :=
  zeroPadded totp.config.digits (truncate (hmac totp.secret (toBeBytes step)) %
    UInt32.ofNat (10 ^ totp.config.digits.toNat))

section

variable {hmac : HmacSha1} {checks : Bool} {totp : Totp}

theorem hotp_eq (hdigits : totp.config.digits.toNat ≤ 9) (step : UInt64) :
    hotp hmac checks totp.secret step totp.config.digits =
      .ok (truncate (hmac totp.secret (toBeBytes step)) %
        UInt32.ofNat (10 ^ totp.config.digits.toNat)) := by
  have hlt := pow_ten_lt hdigits
  have hne : UInt32.ofNat (10 ^ totp.config.digits.toNat) ≠ 0 := by
    intro hzero
    have hpow := toNat_ofNat_pow_ten hdigits
    rw [hzero, UInt32.toNat_zero] at hpow
    have hpos : 0 < 10 ^ totp.config.digits.toNat := Nat.pow_pos (by omega)
    omega
  have hmodulus : powTen checks totp.config.digits =
      .ok (UInt32.ofNat (10 ^ totp.config.digits.toNat)) := by
    rw [powTen, if_neg fun h => by omega]
  rw [hotp, hmodulus]
  exact if_neg hne

theorem generateAt_eq (hstep : 1 ≤ totp.config.stepSecs) (hdigits : totp.config.digits.toNat ≤ 9)
    (timestamp : UInt64) :
    totp.generateAt hmac checks timestamp =
      .ok (codeOf hmac totp (timestamp / totp.config.stepSecs)) := by
  rw [Totp.generateAt, checkedDiv_of_pos hstep]
  simp only [bind, Except.bind, hotp_eq hdigits]
  rfl

/-- The loop has found the code when one of the steps has it. -/
theorem foldlM_tryStep (hdigits : totp.config.digits.toNat ≤ 9) (code : List Char)
    (steps : List UInt64) (found : Bool) :
    steps.foldlM (totp.tryStep hmac checks code) found =
      .ok (found || steps.any fun step => decide (code = codeOf hmac totp step)) := by
  induction steps generalizing found with
  | nil => simp [pure, Except.pure]
  | cons step rest ih =>
      have hturn : totp.tryStep hmac checks code found step =
          .ok (found || decide (code = codeOf hmac totp step)) := by
        rw [Totp.tryStep, hotp_eq hdigits]
        rfl
      rw [List.foldlM_cons, hturn, List.any_cons, ← Bool.or_assoc]
      exact ih _

/-- The steps that `verify_at` tries. -/
def Totp.steps (totp : Totp) (timestamp : UInt64) : List UInt64 :=
  let currentStep := timestamp / totp.config.stepSecs
  let window := totp.config.window.toUInt64
  rangeInclusive (saturatingSub currentStep window) (currentStep + window)

/-- The end of the window fits the word. -/
def Totp.Fits (totp : Totp) (timestamp : UInt64) : Prop :=
  timestamp.toNat / totp.config.stepSecs.toNat + totp.config.window.toNat < 2 ^ 64

theorem Totp.Fits.sum_lt {timestamp : UInt64} (hfits : totp.Fits timestamp) :
    (timestamp / totp.config.stepSecs).toNat + totp.config.window.toUInt64.toNat < 2 ^ 64 := by
  rw [UInt64.toNat_div, UInt32.toNat_toUInt64]
  exact hfits

theorem Totp.mem_steps {timestamp step : UInt64} (hfits : totp.Fits timestamp) :
    step ∈ totp.steps timestamp ↔
      InWindow totp.config.window (timestamp / totp.config.stepSecs) step := by
  have hend : (timestamp / totp.config.stepSecs + totp.config.window.toUInt64).toNat =
      (timestamp / totp.config.stepSecs).toNat + totp.config.window.toNat := by
    rw [UInt64.toNat_add, Nat.mod_eq_of_lt hfits.sum_lt, UInt32.toNat_toUInt64]
  rw [Totp.steps, mem_rangeInclusive, toNat_saturatingSub, hend, UInt32.toNat_toUInt64, InWindow,
    Nat.sub_le_iff_le_add]

theorem verifyAt_eq (hstep : 1 ≤ totp.config.stepSecs) (hdigits : totp.config.digits.toNat ≤ 9)
    {timestamp : UInt64} (hfits : totp.Fits timestamp) (code : List Char) :
    totp.verifyAt hmac checks code timestamp =
      .ok ((totp.steps timestamp).any fun step => decide (code = codeOf hmac totp step)) := by
  rw [Totp.verifyAt, checkedDiv_of_pos hstep]
  simp only [bind, Except.bind, checkedAdd_of_lt hfits.sum_lt]
  exact (foldlM_tryStep hdigits code _ false).trans (by rw [Bool.false_or]; rfl)

/-- **The accepted codes** are those of the steps in the window. -/
theorem verifyAt_eq_true_iff (hstep : 1 ≤ totp.config.stepSecs)
    (hdigits : totp.config.digits.toNat ≤ 9) {timestamp : UInt64} (hfits : totp.Fits timestamp)
    (code : List Char) :
    totp.verifyAt hmac checks code timestamp = .ok true ↔
      ∃ step, InWindow totp.config.window (timestamp / totp.config.stepSecs) step ∧
        codeOf hmac totp step = code := by
  rw [verifyAt_eq hstep hdigits hfits, Except.ok.injEq, List.any_eq_true]
  apply exists_congr
  intro step
  rw [Totp.mem_steps hfits, decide_eq_true_eq, eq_comm]

/-! ## The digits of a code -/

theorem le_length_zeroPadded (digits code : UInt32) :
    1 ≤ (zeroPadded digits code).length := by
  have hpos := Nat.length_toDigits_pos (b := 10) (n := code.toNat)
  rw [zeroPadded, List.length_leftpad]
  omega

theorem length_codeOf (hpos : 1 ≤ totp.config.digits.toNat)
    (hdigits : totp.config.digits.toNat ≤ 9) (step : UInt64) :
    (codeOf hmac totp step).length = totp.config.digits.toNat := by
  have hshort : (Nat.toDigits 10 (truncate (hmac totp.secret (toBeBytes step)) %
      UInt32.ofNat (10 ^ totp.config.digits.toNat)).toNat).length ≤ totp.config.digits.toNat := by
    rw [Nat.length_toDigits_le_iff (by omega) hpos, UInt32.toNat_mod, toNat_ofNat_pow_ten hdigits]
    exact Nat.mod_lt _ (Nat.pow_pos (by omega))
  rw [codeOf, zeroPadded, List.length_leftpad]
  omega

theorem isDigit_of_mem_codeOf {step : UInt64} {c : Char} (hmem : c ∈ codeOf hmac totp step) :
    c.isDigit = true := by
  rw [codeOf, zeroPadded, List.leftpad, List.mem_append] at hmem
  rcases hmem with hmem | hmem
  · rw [List.eq_of_mem_replicate hmem]
    rfl
  · exact Nat.isDigit_of_mem_toDigits (by omega) (by omega) hmem

/-! ## Verification and generation -/

theorem codeAt_eq (hdigits : totp.config.digits.toNat ≤ 9) (step : UInt64) :
    totp.codeAt hmac checks step = .ok (codeOf hmac totp step) := by
  rw [Totp.codeAt, hotp_eq hdigits]
  rfl

/-- A step that some timestamp has, or one that is beyond every timestamp. -/
theorem exists_timestamp_or (hstep : 1 ≤ totp.config.stepSecs) (step : UInt64) :
    (∃ timestamp : UInt64, timestamp / totp.config.stepSecs = step) ∨
      2 ^ 64 ≤ step.toNat * totp.config.stepSecs.toNat := by
  by_cases hfits : step.toNat * totp.config.stepSecs.toNat < 2 ^ 64
  · left
    have hpos : 0 < totp.config.stepSecs.toNat := UInt64.le_iff_toNat_le.mp hstep
    refine ⟨step * totp.config.stepSecs, ?_⟩
    rw [← UInt64.toNat_inj, UInt64.toNat_div, UInt64.toNat_mul, Nat.mod_eq_of_lt hfits,
      Nat.mul_div_cancel _ hpos]
  · exact Or.inr (not_lt.mp hfits)

end

/-- **Verification agrees with generation.**  `verify_at` answers, and it accepts a code exactly
when that is generated at a timestamp whose step is in the window, or is the code of a step in
the window that comes after every timestamp.  A generated code has `digits` decimal digits. -/
theorem verifyAt_iff_generateAt (hmac : HmacSha1) (checks : Bool) (totp : Totp) (code : List Char)
    (timestamp : UInt64) (hstep : 1 ≤ totp.config.stepSecs)
    (hpos : 1 ≤ totp.config.digits.toNat) (hdigits : totp.config.digits.toNat ≤ 9)
    (hfits : timestamp.toNat / totp.config.stepSecs.toNat + totp.config.window.toNat < 2 ^ 64) :
    (∃ answer, totp.verifyAt hmac checks code timestamp = .ok answer) ∧
    (totp.verifyAt hmac checks code timestamp = .ok true ↔
      (∃ other : UInt64, InWindow totp.config.window (timestamp / totp.config.stepSecs)
        (other / totp.config.stepSecs) ∧ totp.generateAt hmac checks other = .ok code) ∨
      (∃ step : UInt64, InWindow totp.config.window (timestamp / totp.config.stepSecs) step ∧
        2 ^ 64 ≤ step.toNat * totp.config.stepSecs.toNat ∧
        totp.codeAt hmac checks step = .ok code)) ∧
    ∃ text, totp.generateAt hmac checks timestamp = .ok text ∧
      text.length = totp.config.digits.toNat ∧ ∀ c ∈ text, c.isDigit = true := by
  refine ⟨⟨_, verifyAt_eq hstep hdigits hfits code⟩, ?_, _, generateAt_eq hstep hdigits timestamp,
    length_codeOf hpos hdigits _, fun c hmem => isDigit_of_mem_codeOf hmem⟩
  rw [verifyAt_eq_true_iff hstep hdigits hfits]
  simp only [generateAt_eq hstep hdigits, codeAt_eq hdigits, Except.ok.injEq]
  constructor
  · intro ⟨step, hwindow, hcode⟩
    rcases exists_timestamp_or hstep step with ⟨other, rfl⟩ | hlate
    · exact Or.inl ⟨other, hwindow, hcode⟩
    · exact Or.inr ⟨step, hwindow, hlate, hcode⟩
  · rintro (⟨other, hwindow, hcode⟩ | ⟨step, hwindow, -, hcode⟩)
    · exact ⟨other / totp.config.stepSecs, hwindow, hcode⟩
    · exact ⟨step, hwindow, hcode⟩

/-- The last four bytes of a counter, as the tests of a code see them. -/
def counterMac : HmacSha1 := fun _ message =>
  Vector.ofFn fun i => if i.val < 4 then message.getD (i.val + 4) 0 else 0

/-- A code of the step after the current one. -/
theorem verifyAt_iff_generateAt_default :
    (Totp.new [] {}).verifyAt counterMac true "000002".toList 59 = .ok true :=
  (verifyAt_iff_generateAt counterMac true (Totp.new [] {}) "000002".toList 59 (by decide)
    (by decide) (by decide) (by decide)).2.1.mpr (Or.inl ⟨60, by decide, by decide⟩)

/-- In the last step that has a timestamp, the code of the next step is accepted, and no
timestamp generates it. -/
theorem lastStep_accepts_next :
    (Totp.new [] {}).verifyAt counterMac true "165577".toList 0xffffffffffffffff = .ok true ∧
      ¬ ∃ other : UInt64, InWindow 1 (0xffffffffffffffff / 30) (other / 30) ∧
        (Totp.new [] {}).generateAt counterMac true other = .ok "165577".toList := by
  refine ⟨by decide, ?_⟩
  intro ⟨other, hwindow, hcode⟩
  rw [generateAt_eq (by decide) (by decide), Except.ok.injEq] at hcode
  have hlow : 614891469123651720 ≤ (other / 30).toNat + 1 := hwindow.1
  have hhigh : (other / 30).toNat ≤ 614891469123651720 := by
    have hother := other.toNat_lt
    rw [UInt64.toNat_div, show (30 : UInt64).toNat = 30 from rfl]
    omega
  have hsteps : other / 30 = 614891469123651719 ∨ other / 30 = 614891469123651720 := by
    rw [← UInt64.toNat_inj, ← UInt64.toNat_inj]
    have hfirst : (614891469123651719 : UInt64).toNat = 614891469123651719 := rfl
    have hlast : (614891469123651720 : UInt64).toNat = 614891469123651720 := rfl
    omega
  have hconfig : (Totp.new [] {}).config.stepSecs = 30 := rfl
  rw [hconfig] at hcode
  rcases hsteps with hstep | hstep
  · rw [hstep] at hcode
    exact absurd hcode (by decide)
  · rw [hstep] at hcode
    exact absurd hcode (by decide)

/-! ## Every configuration -/

/-- At a timestamp nothing faults in any build, the generated code has `digits` digits, and it
is accepted. -/
def Totp.Safe (hmac : HmacSha1) (totp : Totp) (timestamp : UInt64) : Prop :=
  ∀ checks, (∃ text, totp.generateAt hmac checks timestamp = .ok text ∧
      text.length = totp.config.digits.toNat ∧ (∀ c ∈ text, c.isDigit = true) ∧
      totp.verifyAt hmac checks text timestamp = .ok true) ∧
    ∀ code, ∃ answer, totp.verifyAt hmac checks code timestamp = .ok answer

section

variable {hmac : HmacSha1} {totp : Totp} {timestamp : UInt64}

theorem Totp.Safe.step_pos (hsafe : totp.Safe hmac timestamp) : 1 ≤ totp.config.stepSecs := by
  obtain ⟨⟨text, htext, -⟩, -⟩ := hsafe true
  by_contra hstep
  have hzero : totp.config.stepSecs = 0 := by
    rw [← UInt64.toNat_inj]
    rw [UInt64.le_iff_toNat_le] at hstep
    have hone : (1 : UInt64).toNat = 1 := rfl
    have hnone : (0 : UInt64).toNat = 0 := rfl
    omega
  rw [Totp.generateAt, checkedDiv, if_pos hzero] at htext
  cases htext

/-- With overflow checks, the power of ten fits the word. -/
theorem Totp.Safe.digits_le (hsafe : totp.Safe hmac timestamp) :
    totp.config.digits.toNat ≤ 9 := by
  have hstep := hsafe.step_pos
  obtain ⟨⟨text, htext, -⟩, -⟩ := hsafe true
  by_contra hdigits
  have hpow : powTen true totp.config.digits = .error .overflow := by
    rw [powTen, if_pos ⟨rfl, lt_pow_ten (by omega)⟩]
  rw [Totp.generateAt, checkedDiv_of_pos hstep] at htext
  simp only [bind, Except.bind, hotp, hpow] at htext
  cases htext

theorem Totp.Safe.digits_pos (hsafe : totp.Safe hmac timestamp) :
    1 ≤ totp.config.digits.toNat := by
  obtain ⟨⟨text, htext, hlength, -⟩, -⟩ := hsafe true
  rw [generateAt_eq hsafe.step_pos hsafe.digits_le, Except.ok.injEq] at htext
  rw [← hlength, ← htext]
  exact le_length_zeroPadded _ _

theorem Totp.Safe.fits (hsafe : totp.Safe hmac timestamp) : totp.Fits timestamp := by
  obtain ⟨-, htotal⟩ := hsafe true
  obtain ⟨answer, hanswer⟩ := htotal []
  by_contra hfits
  have hsum : 2 ^ 64 ≤
      (timestamp / totp.config.stepSecs).toNat + totp.config.window.toUInt64.toNat := by
    rw [UInt64.toNat_div, UInt32.toNat_toUInt64]
    exact not_lt.mp hfits
  rw [Totp.verifyAt, checkedDiv_of_pos hsafe.step_pos] at hanswer
  simp only [bind, Except.bind, checkedAdd, hsum, and_self, if_true] at hanswer
  cases hanswer

theorem Totp.safe_of_fits (hstep : 1 ≤ totp.config.stepSecs)
    (hpos : 1 ≤ totp.config.digits.toNat) (hdigits : totp.config.digits.toNat ≤ 9)
    (hfits : totp.Fits timestamp) : totp.Safe hmac timestamp := by
  intro checks
  refine ⟨⟨_, generateAt_eq hstep hdigits timestamp, length_codeOf hpos hdigits _,
    fun c hmem => isDigit_of_mem_codeOf hmem, ?_⟩,
    fun code => ⟨_, verifyAt_eq hstep hdigits hfits code⟩⟩
  rw [verifyAt_eq_true_iff hstep hdigits hfits]
  exact ⟨timestamp / totp.config.stepSecs, ⟨Nat.le_add_right _ _, Nat.le_add_right _ _⟩, rfl⟩

end

/-- **Which configurations are safe.**  The step is not zero, there are one to nine digits, and
the window ends before the last step. -/
theorem Totp.safe_iff (hmac : HmacSha1) (secret : List UInt8) (config : TotpConfig)
    (timestamp : UInt64) :
    (Totp.new secret config).Safe hmac timestamp ↔
      1 ≤ config.stepSecs ∧ 1 ≤ config.digits.toNat ∧ config.digits.toNat ≤ 9 ∧
        timestamp.toNat / config.stepSecs.toNat + config.window.toNat < 2 ^ 64 := by
  constructor
  · intro hsafe
    exact ⟨hsafe.step_pos, hsafe.digits_pos, hsafe.digits_le, hsafe.fits⟩
  · intro ⟨hstep, hpos, hdigits, hfits⟩
    exact Totp.safe_of_fits hstep hpos hdigits hfits

/-- Ten digits are accepted by the configuration, and the power of ten overflows. -/
theorem tenDigits_unsafe : ¬ (Totp.new [] { digits := 10 }).Safe counterMac 0 := by
  intro hsafe
  exact absurd hsafe.digits_le (by decide)

end Modo.Auth
