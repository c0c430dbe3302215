import Modo.Job.Model
import Modo.Session.Store
import Modo.TimeOrder

/-!
# What the text comparisons select

The claim of a worker, the pass of the reaper and the read of a session compare
stored timestamps as texts.  For comparable instants they select what the
instants say (`claim_eligible`, `reap_stale`, `readByToken_eq_some`), and the
instants for which the two orders differ are known exactly
(`textLT_iff_lt`): a `run_at` in the year 10000 stands before the present.
-/

namespace Modo

open DateTime (ofSecs)
open Jobs Sessions

/-! ## The statements -/

/-- A claim takes jobs whose `run_at` has come. -/
theorem claim_eligible {handlers : Handlers} {queue : String} {slots : ℕ} {now : DateTime}
    {chosen : List Job} {table : JobTable} {result : JobTable × List Job}
    (hclaim : claim handlers queue slots now chosen table = some result) {job : Job}
    (hjob : job ∈ chosen) (hcomparable : DateTime.Comparable job.runAt now) :
    job.runAt ≤ now := by
  unfold claim at hclaim
  split at hclaim
  · rename_i hlimited
    have hcandidate := (List.mem_filter.mp (hlimited.subset job hjob)).2
    simp only [claimable, Bool.and_eq_true, decide_eq_true_eq] at hcandidate
    exact (DateTime.textLE_iff_le hcomparable).mp hcandidate.1.1.2
  · cases hclaim

/-- The reaper changes only rows that started before its threshold. -/
theorem reap_stale {threshold now : DateTime} {table : JobTable} {id : String} {job : Job}
    (hget : table.get? id = some job)
    (hchanged : (reap threshold now table).get? id ≠ some job)
    (hcomparable : ∀ started, job.startedAt = some started →
      DateTime.Comparable started threshold) :
    ∃ started, job.startedAt = some started ∧ started < threshold := by
  have hstale : stale threshold job = true := by
    by_contra hfresh
    apply hchanged
    rw [reap, Table.get?_modify, hget, Option.map_some, Table.setWhere, if_neg hfresh]
  simp only [stale, Bool.and_eq_true, Option.any_eq_true, decide_eq_true_eq] at hstale
  obtain ⟨-, started, hstarted, htext⟩ := hstale
  exact ⟨started, hstarted,
    ((DateTime.textLT_iff_lt started threshold).mpr (hcomparable started hstarted)).mp htext⟩

/-- A session is read by its token exactly when it is unexpired. -/
theorem readByToken_eq_some {sha256 : List UInt8 → String} {token : SessionToken}
    {now : DateTime} {table : SessionTable} {id : String} {row : Row}
    (hget : table.get? id = some row) (hhash : row.tokenHash = token.hash sha256)
    (hcomparable : DateTime.Comparable now row.session.expiresAt) :
    readByToken sha256 token now table = some row.session ↔ now < row.session.expiresAt := by
  rw [← (DateTime.textLT_iff_lt now row.session.expiresAt).mpr hcomparable, readByToken, ← hhash]
  constructor
  · intro hread
    obtain ⟨-, -, -, -, hactive⟩ := get?_of_readByTokenHash hread
    exact hactive
  · exact readByTokenHash_eq_some hget

/-! ## The result -/

/-- **Timestamps compare correctly as text** exactly when they are comparable,
and then claims, reaps and reads follow the clock. -/
theorem text_order_exact (a b : DateTime) :
    ((a.textLT b ↔ a < b) ↔ a.Comparable b) ∧
    (∀ (handlers : Handlers) (queue : String) (slots : ℕ) (now : DateTime) (chosen : List Job)
      (table : JobTable) (result : JobTable × List Job),
      claim handlers queue slots now chosen table = some result →
      ∀ job ∈ chosen, job.runAt.Comparable now → job.runAt ≤ now) ∧
    (∀ (threshold now : DateTime) (table : JobTable) (id : String) (job : Job),
      table.get? id = some job → (reap threshold now table).get? id ≠ some job →
      (∀ started, job.startedAt = some started → started.Comparable threshold) →
      ∃ started, job.startedAt = some started ∧ started < threshold) ∧
    (∀ (sha256 : List UInt8 → String) (token : SessionToken) (now : DateTime)
      (table : SessionTable) (id : String) (row : Row),
      table.get? id = some row → row.tokenHash = token.hash sha256 →
      now.Comparable row.session.expiresAt →
      (readByToken sha256 token now table = some row.session ↔ now < row.session.expiresAt)) :=
  ⟨DateTime.textLT_iff_lt a b,
    fun _ _ _ _ _ _ _ hclaim _ hjob => claim_eligible hclaim hjob,
    fun _ _ _ _ _ hget => reap_stale hget,
    fun _ _ _ _ _ _ hget => readByToken_eq_some hget⟩

/-- The first second of the year 10000. -/
def year10000 : DateTime := ofSecs 253402300800

/-- A job scheduled for the year 10000. -/
def distantJob : Job :=
  newJob "01J" "report" "null" none { runAt := some year10000 } (ofSecs 1767225600)

/-- A worker claims the job in 2026: its `run_at` is later, and its text is not. -/
theorem distant_job_claimed :
    ¬ ((ofSecs 1767225600).textLT year10000 ↔ ofSecs 1767225600 < year10000) ∧
    ¬ distantJob.runAt ≤ ofSecs 1767225600 ∧
    ((Table.empty : JobTable).insert distantJob).any (fun table =>
      (claim [("report", {})] "default" 1 (ofSecs 1767225600) [distantJob] table).isSome) =
        true := by
  decide

end Modo
