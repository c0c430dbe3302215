import Modo.Job.Terminal
import Mathlib.Tactic.NormNum

/-!
# Retry delays

`handle_job_failure` schedules a retry `min(5 * 2^(attempt-1), 3600)` seconds from now.  The
power and the product are `u64` arithmetic, and they are computed before the minimum is taken:
up to attempt 62 they fit (`delaySecs_of_le`).  Beyond that a build with overflow checks
panics, so that the row stays `running`, and from attempt 65 on the other build retries at once.

`retriesOnSchedule_iff` is that bound.
-/

namespace Modo.Jobs

/-- The documented delay. -/
def backoff (attempt : ℕ) : ℕ := min (5 * 2 ^ (attempt - 1)) 3600

/-- The update that `handle_job_failure` sends for a retry after `delay` seconds. -/
def retryAfter (delay : ℕ) (id message : String) (now later : DateTime) (table : JobTable) :
    Option JobTable :=
  table.update (fun job => decide (job.id = id))
    (Job.setRetry message (later.addSeconds delay) now)
    (Job.setRetry_id message (later.addSeconds delay) now)

/-- In every build and on every table, a failure with attempts left sends the update with the
documented delay; when SQLite refuses the update, the table stays as it is. -/
def RetriesOnSchedule (attempt maxAttempts : ℕ) : Prop :=
  ∀ overflowChecks id message now later table,
    handleJobFailure overflowChecks id attempt maxAttempts message now later table =
      (retryAfter (backoff attempt) id message now later table).getD table

theorem product_lt {attempt : ℕ} (hle : attempt ≤ 62) : 5 * 2 ^ (attempt - 1) < 2 ^ 64 :=
  calc
    5 * 2 ^ (attempt - 1) ≤ 5 * 2 ^ 61 :=
      Nat.mul_le_mul_left 5 (Nat.pow_le_pow_right (by omega) (by omega))
    _ < 2 ^ 64 := by norm_num

theorem le_product {attempt : ℕ} (hlt : 62 < attempt) : 2 ^ 64 ≤ 5 * 2 ^ (attempt - 1) :=
  calc
    2 ^ 64 ≤ 5 * 2 ^ 62 := by norm_num
    _ ≤ 5 * 2 ^ (attempt - 1) :=
      Nat.mul_le_mul_left 5 (Nat.pow_le_pow_right (by omega) (by omega))

/-- As long as the product fits, every build computes the documented delay. -/
theorem delaySecs_of_le {attempt : ℕ} (hpos : 1 ≤ attempt) (hle : attempt ≤ 62)
    (overflowChecks : Bool) : delaySecs overflowChecks attempt = some (backoff attempt) := by
  have hproduct := product_lt hle
  have hexponent : (attempt + (2 ^ 32 - 1)) % 2 ^ 32 = attempt - 1 := by omega
  have hpower : 2 ^ (attempt - 1) < 2 ^ 64 := by omega
  rw [delaySecs, if_neg fun h => by omega]
  simp only [hexponent, Nat.mod_eq_of_lt hpower, Nat.mod_eq_of_lt hproduct, backoff]

/-- With overflow checks, the delay panics as soon as the product does not fit. -/
theorem delaySecs_of_lt {attempt : ℕ} (hlt : 62 < attempt) : delaySecs true attempt = none := by
  rw [delaySecs, if_pos ⟨rfl, Or.inr (le_product hlt)⟩]

/-- Without overflow checks, the power wraps to zero. -/
theorem delaySecs_wraps {attempt : ℕ} (hlt : 64 < attempt) (hword : attempt < 2 ^ 32) :
    delaySecs false attempt = some 0 := by
  have hexponent : (attempt + (2 ^ 32 - 1)) % 2 ^ 32 = attempt - 1 := by omega
  have hzero : 2 ^ (attempt - 1) % 2 ^ 64 = 0 :=
    Nat.mod_eq_zero_of_dvd (Nat.pow_dvd_pow 2 (by omega))
  rw [delaySecs, if_neg (by simp)]
  simp only [hexponent, hzero, Nat.mul_zero, Nat.zero_mod, Nat.zero_min]

theorem handleJobFailure_of_delay {overflowChecks : Bool} {attempt maxAttempts delay : ℕ}
    (hleft : attempt < maxAttempts) (hdelay : delaySecs overflowChecks attempt = some delay)
    (id message : String) (now later : DateTime) (table : JobTable) :
    handleJobFailure overflowChecks id attempt maxAttempts message now later table =
      (retryAfter delay id message now later table).getD table := by
  rw [handleJobFailure, if_neg (by omega), hdelay]
  rfl

theorem handleJobFailure_of_panic {overflowChecks : Bool} {attempt maxAttempts : ℕ}
    (hleft : attempt < maxAttempts) (hdelay : delaySecs overflowChecks attempt = none)
    (id message : String) (now later : DateTime) (table : JobTable) :
    handleJobFailure overflowChecks id attempt maxAttempts message now later table = table := by
  rw [handleJobFailure, if_neg (by omega), hdelay]

/-- The row whose retry is scheduled. -/
theorem get?_retryAfter {id : String} (delay : ℕ) (message : String) (now later : DateTime)
    {table : JobTable} {job : Job} (hget : table.get? id = some job) (hfree : RetryFree table job) :
    ((retryAfter delay id message now later table).getD table).get? id =
      some (job.setRetry message (later.addSeconds delay) now) := by
  have hid : job.id = id := Table.get?_key hget
  have hsome : (retryAfter delay id message now later table).isSome := by
    rw [retryAfter, Table.update_key_isSome hget, Job.slot_setRetry]
    intro hash hhash other hother hne
    exact hfree hash hhash other hother (hid ▸ hne)
  obtain ⟨table', hupdate⟩ := Option.isSome_iff_exists.mp hsome
  rw [hupdate, Option.getD_some, Table.get?_update hupdate, hget]
  simp [Table.setWhere, hid]

/-- **Without overflow checks the retry is due at once** from attempt 65 on. -/
theorem handleJobFailure_wraps {attempt maxAttempts : ℕ} (hlt : 64 < attempt)
    (hleft : attempt < maxAttempts) (hword : maxAttempts < 2 ^ 32) (id message : String)
    (now later : DateTime) (table : JobTable) :
    handleJobFailure false id attempt maxAttempts message now later table =
      (retryAfter 0 id message now later table).getD table :=
  handleJobFailure_of_delay hleft (delaySecs_wraps hlt (by omega)) id message now later table

/-- A table with one running job. -/
def oneRunning : JobTable where
  rows := [(newJob "job" "name" "payload" none {} (.ofSecs 0)).setRunning (.ofSecs 0)]
  key_nodup := by simp
  slot_nodup := by simp [Job.slot, Job.setRunning, newJob]

/-- The panic is seen on every table that has the job. -/
theorem not_retriesOnSchedule {attempt maxAttempts : ℕ} (hlt : 62 < attempt)
    (hleft : attempt < maxAttempts) : ¬ RetriesOnSchedule attempt maxAttempts := by
  intro hschedule
  have hsame := hschedule true "job" "" (.ofSecs 0) (.ofSecs 0) oneRunning
  rw [handleJobFailure_of_panic hleft (delaySecs_of_lt hlt)] at hsame
  have hget : oneRunning.get? "job" =
      some ((newJob "job" "name" "payload" none {} (.ofSecs 0)).setRunning (.ofSecs 0)) := rfl
  have hretried := get?_retryAfter (backoff attempt) "" (.ofSecs 0) (.ofSecs 0) hget
    (by simp [RetryFree, Job.setRunning, newJob])
  rw [← hsame, hget] at hretried
  exact absurd (congrArg (Option.map Job.status) hretried) (by simp [Job.setRunning, Job.setRetry])

/-- **The retry delay.**  The failure of an attempt that is not the last is retried on schedule
exactly up to attempt 62. -/
theorem retriesOnSchedule_iff {attempt maxAttempts : ℕ} (hpos : 1 ≤ attempt)
    (hleft : attempt < maxAttempts) :
    RetriesOnSchedule attempt maxAttempts ↔ attempt ≤ 62 := by
  constructor
  · intro hschedule
    by_contra hlt
    exact not_retriesOnSchedule (not_le.mp hlt) hleft hschedule
  · intro hle overflowChecks id message now later table
    exact handleJobFailure_of_delay hleft (delaySecs_of_le hpos hle overflowChecks) id message now
      later table

/-- The last retry of the default options. -/
theorem retriesOnSchedule_default : RetriesOnSchedule 2 3 :=
  (retriesOnSchedule_iff (by decide) (by decide)).mpr (by decide)

/-- The 65th of a hundred attempts. -/
theorem late_attempt_unscheduled : ¬ RetriesOnSchedule 65 100 :=
  not_retriesOnSchedule (by decide) (by decide)

end Modo.Jobs
