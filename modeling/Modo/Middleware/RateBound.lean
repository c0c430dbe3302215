import Mathlib.Tactic.FieldSimp
import Mathlib.Tactic.Linarith
import Mathlib.Tactic.Positivity
import Modo.Middleware.RateLimit

/-!
# How many checks are allowed

The state of a key is its `level`: the tokens that a check at a given time finds,
a full bucket when the key is not tracked.  A check answers by the level and takes
a token off it when it is allowed; between checks the level rises by `perSecond`
a second up to `burst`.  A cleanup drops only buckets that are full by then, so
that no level changes (`level_cleanup`).

* `rate_limit_bound`: at most `burst + perSecond * T` checks are allowed in `T`
  seconds, by the potential `level + perSecond * (time left)`;
* `cleanup_unobservable`: with and without cleanups all levels, hence all answers,
  are the same.
-/

namespace Modo.RateLimit

variable {n : ℕ}

/-! ## Levels -/

/-- What a check leaves of a level. -/
def spend (level : ℚ) : ℚ := if 1 ≤ level then level - 1 else level

/-- A level some time later. -/
def Limiter.risen (limiter : Limiter n) (level duration : ℚ) : ℚ :=
  min (level + duration * limiter.perSecond) limiter.burst

/-- The answer of a bucket at a level. -/
def Limiter.answer (limiter : Limiter n) (level : ℚ) : CheckResult :=
  if 1 ≤ level then .allowed ⌊level - 1⌋₊ else .rejected ((1 - level) / limiter.perSecond)

theorem spend_nonneg {level : ℚ} (hlevel : 0 ≤ level) : 0 ≤ spend level := by
  unfold spend
  split_ifs with hone
  · linarith
  · exact hlevel

theorem spend_le (level : ℚ) : spend level ≤ level := by
  unfold spend
  split_ifs <;> linarith

theorem risen_le (limiter : Limiter n) (level duration : ℚ) :
    limiter.risen level duration ≤ level + duration * limiter.perSecond :=
  min_le_left _ _

theorem risen_zero {limiter : Limiter n} {level : ℚ} (hle : level ≤ limiter.burst) :
    limiter.risen level 0 = level := by
  rw [Limiter.risen, zero_mul, add_zero, min_eq_left hle]

/-- Rising in two parts. -/
theorem risen_risen (limiter : Limiter n) (level first : ℚ) {second : ℚ} (hsecond : 0 ≤ second) :
    limiter.risen (limiter.risen level first) second = limiter.risen level (first + second) := by
  unfold Limiter.risen
  have hrate : (0 : ℚ) ≤ second * limiter.perSecond := mul_nonneg hsecond (Nat.cast_nonneg _)
  rcases le_total (level + first * limiter.perSecond) limiter.burst with hle | hle
  · rw [min_eq_left hle]
    congr 1
    ring
  · rw [min_eq_right hle, min_eq_right (by linarith), min_eq_right]
    calc (limiter.burst : ℚ) ≤ level + first * limiter.perSecond := hle
      _ ≤ level + first * limiter.perSecond + second * limiter.perSecond := by linarith
      _ = level + (first + second) * limiter.perSecond := by ring

variable [NeZero n]

/-- The tokens that a check of the key at time `t` finds. -/
def Limiter.level (limiter : Limiter n) (map : ShardedMap n) (key : String) (t : ℚ) : ℚ :=
  match limiter.bucket key map with
  | some bucket => bucket.refilled limiter.perSecond limiter.burst t
  | none => limiter.burst

/-- The buckets hold between zero and `burst` tokens, and were refilled at the
`clock` or before. -/
def Limiter.WellKept (limiter : Limiter n) (clock : ℚ) (map : ShardedMap n) : Prop :=
  ∀ key bucket, limiter.bucket key map = some bucket →
    0 ≤ bucket.tokens ∧ bucket.tokens ≤ limiter.burst ∧ bucket.lastRefill ≤ clock

section Levels

variable {limiter : Limiter n} {map : ShardedMap n} {clock : ℚ}

theorem durationSince_of_le {now earlier : ℚ} (hle : earlier ≤ now) :
    durationSince now earlier = now - earlier :=
  max_eq_left (sub_nonneg.mpr hle)

theorem wellKept_empty (limiter : Limiter n) (clock : ℚ) :
    limiter.WellKept clock (fun _ => ∅) := by
  intro key bucket hbucket
  rw [bucket_empty] at hbucket
  cases hbucket

theorem Limiter.WellKept.mono (hkept : limiter.WellKept clock map) {later : ℚ}
    (hle : clock ≤ later) : limiter.WellKept later map := by
  intro key bucket hbucket
  obtain ⟨hnonneg, hburst, hrefill⟩ := hkept key bucket hbucket
  exact ⟨hnonneg, hburst, hrefill.trans hle⟩

theorem level_le_burst (limiter : Limiter n) (map : ShardedMap n) (key : String) (t : ℚ) :
    limiter.level map key t ≤ limiter.burst := by
  unfold Limiter.level
  split
  · exact min_le_right _ _
  · exact le_refl _

theorem level_nonneg (hkept : limiter.WellKept clock map) (key : String) (t : ℚ) :
    0 ≤ limiter.level map key t := by
  unfold Limiter.level
  have hburst : (0 : ℚ) ≤ limiter.burst := Nat.cast_nonneg _
  split
  next bucket hbucket =>
    have htokens := (hkept key bucket hbucket).1
    have hrefill : 0 ≤ durationSince t bucket.lastRefill * limiter.perSecond :=
      mul_nonneg (le_max_right _ _) (Nat.cast_nonneg _)
    exact le_min (add_nonneg htokens hrefill) hburst
  next => exact hburst

/-- Between checks the level rises. -/
theorem level_eq_risen (hkept : limiter.WellKept clock map) (key : String) {s t : ℚ}
    (hs : clock ≤ s) (hst : s ≤ t) :
    limiter.level map key t = limiter.risen (limiter.level map key s) (t - s) := by
  unfold Limiter.level
  cases hbucket : limiter.bucket key map with
  | none =>
      have hrise : (0 : ℚ) ≤ (t - s) * limiter.perSecond :=
        mul_nonneg (sub_nonneg.mpr hst) (Nat.cast_nonneg _)
      exact (min_eq_right (by linarith)).symm
  | some bucket =>
      have hrefill := (hkept key bucket hbucket).2.2
      have hflow := risen_risen limiter bucket.tokens (s - bucket.lastRefill)
        (sub_nonneg.mpr hst)
      simp only [TokenBucket.refilled, durationSince_of_le (hrefill.trans (hs.trans hst)),
        durationSince_of_le (hrefill.trans hs)]
      rw [show t - bucket.lastRefill = s - bucket.lastRefill + (t - s) by ring]
      exact hflow.symm

end Levels

/-! ## Checks and cleanups -/

section Steps

variable {limiter : Limiter n} {map : ShardedMap n} {clock : ℚ} {key : String}

/-- The bucket that a check reads. -/
def Limiter.found (limiter : Limiter n) (map : ShardedMap n) (key : String) (born : ℚ) :
    TokenBucket :=
  (limiter.bucket key map).getD (.new limiter.burst born)

theorem refilled_found (limiter : Limiter n) (map : ShardedMap n) (key : String) (born now : ℚ) :
    (limiter.found map key born).refilled limiter.perSecond limiter.burst now =
      limiter.level map key now := by
  unfold Limiter.found Limiter.level
  cases limiter.bucket key map with
  | some bucket => rfl
  | none =>
      have hrefill : 0 ≤ durationSince now born * limiter.perSecond :=
        mul_nonneg (le_max_right _ _) (Nat.cast_nonneg _)
      exact min_eq_right (by simpa [TokenBucket.new] using hrefill)

/-- A check that is not turned away by the cap answers by the level and spends it. -/
theorem checkOrInsert_answer (limiter : Limiter n) (map : ShardedMap n) (key : String)
    (born now : ℚ) (hcap : limiter.bucket key map = none → limiter.full map = false) :
    (limiter.checkOrInsert key born now map).1 = limiter.answer (limiter.level map key now) ∧
      (limiter.checkOrInsert key born now map).2 =
        limiter.insert key ⟨spend (limiter.level map key now), now⟩ map := by
  have hcheck : limiter.checkOrInsert key born now map =
      limiter.checkBucket key (limiter.found map key born) now map := by
    rw [checkOrInsert_eq]
    unfold Limiter.found
    cases hbucket : limiter.bucket key map with
    | some bucket => rfl
    | none => simp [hcap hbucket]
  rw [hcheck]
  unfold Limiter.checkBucket TokenBucket.check Limiter.answer spend
  simp only [refilled_found]
  by_cases hone : 1 ≤ limiter.level map key now
  · simp only [if_pos hone, and_self]
  · simp only [if_neg hone, and_self]

/-- A check turned away by the cap changes nothing. -/
theorem checkOrInsert_full (born now : ℚ) (hbucket : limiter.bucket key map = none)
    (hfull : limiter.full map = true) :
    limiter.checkOrInsert key born now map = (.rejected 1, map) := by
  rw [checkOrInsert_eq, hbucket]
  simp [hfull]

/-- The level of the key after a check of it. -/
theorem level_insert_self (map : ShardedMap n) {now t : ℚ} (hle : now ≤ t) (level : ℚ) :
    limiter.level (limiter.insert key ⟨level, now⟩ map) key t = limiter.risen level (t - now) := by
  unfold Limiter.level
  rw [bucket_insert, if_pos rfl]
  simp only [TokenBucket.refilled, durationSince_of_le hle]
  rfl

theorem level_insert_other {other : String} (hother : other ≠ key) (bucket : TokenBucket) (t : ℚ) :
    limiter.level (limiter.insert key bucket map) other t = limiter.level map other t := by
  unfold Limiter.level
  rw [bucket_insert, if_neg hother]

theorem wellKept_insert (hkept : limiter.WellKept clock map) {now : ℚ} (hle : clock ≤ now)
    (key : String) :
    limiter.WellKept now
      (limiter.insert key ⟨spend (limiter.level map key now), now⟩ map) := by
  intro other bucket hbucket
  rw [bucket_insert] at hbucket
  by_cases hother : other = key
  · rw [if_pos hother, Option.some.injEq] at hbucket
    rw [← hbucket]
    exact ⟨spend_nonneg (level_nonneg hkept key now),
      (spend_le _).trans (level_le_burst limiter map key now), le_refl now⟩
  · rw [if_neg hother] at hbucket
    exact hkept.mono hle other bucket hbucket

theorem wellKept_cleanup (hkept : limiter.WellKept clock map) (now : ℚ) :
    limiter.WellKept clock (limiter.cleanup now map) := by
  intro key bucket hbucket
  rw [bucket_cleanup, Option.filter_eq_some_iff] at hbucket
  exact hkept key bucket hbucket.1

/-- A cleanup changes no level: the buckets it drops are full. -/
theorem level_cleanup (hper : 0 < limiter.perSecond) (hkept : limiter.WellKept clock map)
    {now t : ℚ} (hnow : clock ≤ now) (ht : now ≤ t) (key : String) :
    limiter.level (limiter.cleanup now map) key t = limiter.level map key t := by
  unfold Limiter.level
  rw [bucket_cleanup]
  cases hbucket : limiter.bucket key map with
  | none => rfl
  | some bucket =>
      obtain ⟨htokens, -, hrefill⟩ := hkept key bucket hbucket
      rw [Option.filter_some]
      by_cases hrecent : durationSince now bucket.lastRefill < limiter.maxIdle
      · rw [if_pos (decide_eq_true hrecent)]
      · rw [if_neg (by simpa using hrecent)]
        rw [durationSince_of_le (hrefill.trans hnow), Limiter.maxIdle, if_pos hper,
          not_lt] at hrecent
        have hpos : (0 : ℚ) < limiter.perSecond := Nat.cast_pos.mpr hper
        have hfull : (limiter.burst : ℚ) ≤
            bucket.tokens + (t - bucket.lastRefill) * limiter.perSecond := by
          calc (limiter.burst : ℚ) ≤ (now - bucket.lastRefill) * limiter.perSecond :=
                (div_le_iff₀ hpos).mp hrecent
            _ ≤ (t - bucket.lastRefill) * limiter.perSecond := by gcongr
            _ ≤ bucket.tokens + (t - bucket.lastRefill) * limiter.perSecond :=
                le_add_of_nonneg_left htokens
        show (limiter.burst : ℚ) = bucket.refilled limiter.perSecond limiter.burst t
        rw [TokenBucket.refilled, durationSince_of_le (hrefill.trans (hnow.trans ht))]
        exact (min_eq_right hfull).symm

end Steps

/-! ## Runs -/

/-- Something that happens to the map: a check of a key, with the times at which a
new bucket would be made and at which the bucket is read, or a cleanup. -/
inductive Event where
  | check (key : String) (born now : ℚ)
  | cleanup (now : ℚ)

namespace Event

/-- The first clock reading. -/
def begins : Event → ℚ
  | check _ born _ => born
  | cleanup now => now

/-- The last clock reading. -/
def time : Event → ℚ
  | check _ _ now => now
  | cleanup now => now

def isCheck : Event → Bool
  | check .. => true
  | cleanup _ => false

/-- The event is a check of the key. -/
def checks (key : String) : Event → Bool
  | check other _ _ => decide (other = key)
  | cleanup _ => false

end Event

/-- The events happen one after the other on a monotone clock. -/
def Chronological : ℚ → List Event → Prop
  | _, [] => True
  | clock, event :: rest =>
      clock ≤ event.begins ∧ event.begins ≤ event.time ∧ Chronological event.time rest

/-- The result of a check. -/
structure Answer where
  key : String
  time : ℚ
  result : CheckResult
  deriving DecidableEq

/-- The map after an event. -/
def Limiter.after (limiter : Limiter n) (map : ShardedMap n) : Event → ShardedMap n
  | .check key born now => (limiter.checkOrInsert key born now map).2
  | .cleanup now => limiter.cleanup now map

/-- The map after a list of events. -/
def Limiter.run (limiter : Limiter n) (map : ShardedMap n) (events : List Event) : ShardedMap n :=
  events.foldl limiter.after map

/-- The answers given during a list of events. -/
def Limiter.answers (limiter : Limiter n) : ShardedMap n → List Event → List Answer
  | _, [] => []
  | map, .check key born now :: rest =>
      ⟨key, now, (limiter.checkOrInsert key born now map).1⟩ ::
        limiter.answers (limiter.after map (.check key born now)) rest
  | map, .cleanup now :: rest => limiter.answers (limiter.after map (.cleanup now)) rest

/-- The checks of the key that were allowed between two times. -/
def allowedIn (key : String) (start stop : ℚ) (answers : List Answer) : List Answer :=
  answers.filter fun answer => decide (answer.key = key ∧ start ≤ answer.time ∧
    answer.time ≤ stop) && answer.result.isAllowed

/-- The tokens of the key that an event takes. -/
def Limiter.cost (limiter : Limiter n) (map : ShardedMap n) (key : String) : Event → ℚ
  | .check other born now =>
      if other = key ∧ (limiter.checkOrInsert other born now map).1.isAllowed then 1 else 0
  | .cleanup _ => 0

section Runs

variable {limiter : Limiter n} {map : ShardedMap n} {clock : ℚ} {events : List Event}

/-- **An event keeps the buckets in range.** -/
theorem wellKept_after (hkept : limiter.WellKept clock map) {event : Event}
    (hbegins : clock ≤ event.begins) (htime : event.begins ≤ event.time) :
    limiter.WellKept event.time (limiter.after map event) := by
  cases event with
  | cleanup now => exact (wellKept_cleanup hkept now).mono hbegins
  | check key born now =>
      have hnow : clock ≤ now := hbegins.trans htime
      by_cases hcap : limiter.bucket key map = none ∧ limiter.full map = true
      · rw [Limiter.after, checkOrInsert_full born now hcap.1 hcap.2]
        exact hkept.mono hnow
      · have hanswer := checkOrInsert_answer limiter map key born now
          fun hnone => by simpa [hnone] using hcap
        rw [Limiter.after, hanswer.2]
        exact wellKept_insert hkept hnow key

/-- A run up to some point: the buckets are in range at a time between the two
parts. -/
theorem wellKept_run (hkept : limiter.WellKept clock map) {first second : List Event}
    (hchron : Chronological clock (first ++ second)) :
    ∃ later, clock ≤ later ∧ (∀ event ∈ first, event.time ≤ later) ∧
      limiter.WellKept later (limiter.run map first) ∧ Chronological later second := by
  induction first generalizing clock map with
  | nil => exact ⟨clock, le_refl clock, by simp, hkept, hchron⟩
  | cons event rest ih =>
      obtain ⟨hbegins, htime, hrest⟩ := hchron
      obtain ⟨later, hlater, hevents, hfinal, hsecond⟩ :=
        ih (wellKept_after hkept hbegins htime) hrest
      exact ⟨later, (hbegins.trans htime).trans hlater,
        List.forall_mem_cons.mpr ⟨hlater, hevents⟩, hfinal, hsecond⟩

/-- **What an event takes of a key it takes from its level.** -/
theorem level_after (hper : 0 < limiter.perSecond) (hkept : limiter.WellKept clock map)
    {event : Event} (hbegins : clock ≤ event.begins) (htime : event.begins ≤ event.time)
    (key : String) :
    limiter.level (limiter.after map event) key event.time =
      limiter.level map key event.time - limiter.cost map key event := by
  cases event with
  | cleanup now =>
      rw [Limiter.cost, sub_zero]
      exact level_cleanup hper hkept hbegins (le_refl now) key
  | check other born now =>
      by_cases hcap : limiter.bucket other map = none ∧ limiter.full map = true
      · have hturned := checkOrInsert_full born now hcap.1 hcap.2
        rw [Limiter.after, Limiter.cost, hturned, if_neg (by simp [CheckResult.isAllowed]),
          sub_zero]
      · obtain ⟨hresult, hmap⟩ := checkOrInsert_answer limiter map other born now
          fun hnone => by simpa [hnone] using hcap
        rw [Limiter.after, Limiter.cost, hresult, hmap]
        by_cases hother : key = other
        · subst hother
          rw [Event.time, level_insert_self map (le_refl now), sub_self,
            risen_zero ((spend_le _).trans (level_le_burst limiter map key now))]
          unfold spend Limiter.answer
          split_ifs <;> simp_all [CheckResult.isAllowed]
        · rw [level_insert_other hother, if_neg (fun h => hother h.1.symm), sub_zero]

/-- The level later on. -/
theorem level_le_add (hkept : limiter.WellKept clock map) (key : String) {t : ℚ}
    (ht : clock ≤ t) :
    limiter.level map key t ≤ limiter.level map key clock + (t - clock) * limiter.perSecond := by
  rw [level_eq_risen hkept key (le_refl clock) ht]
  exact risen_le limiter _ _

/-- Answers are given after the clock. -/
theorem le_time_of_mem_answers (hchron : Chronological clock events) {answer : Answer}
    (hanswer : answer ∈ limiter.answers map events) : clock ≤ answer.time := by
  induction events generalizing clock map with
  | nil => simp [Limiter.answers] at hanswer
  | cons event rest ih =>
      obtain ⟨hbegins, htime, hrest⟩ := hchron
      have hlater := hbegins.trans htime
      cases event with
      | cleanup now => exact hlater.trans (ih hrest hanswer)
      | check key born now =>
          rcases List.mem_cons.mp hanswer with rfl | hanswer
          · exact hlater
          · exact hlater.trans (ih hrest hanswer)

theorem allowedIn_eq_nil (hchron : Chronological clock events) {start stop : ℚ}
    (hstop : stop < clock) (key : String) :
    allowedIn key start stop (limiter.answers map events) = [] := by
  rw [allowedIn, List.filter_eq_nil_iff]
  intro answer hanswer
  have hlater := le_time_of_mem_answers hchron hanswer
  simp only [Bool.and_eq_true, decide_eq_true_eq, not_and]
  intro hin
  exact absurd (hlater.trans hin.2.2) (not_le_of_gt hstop)

/-- An event after the window, and all after it, count for nothing. -/
theorem allowedIn_cons_eq_nil {event : Event} {rest : List Event}
    (hrest : Chronological event.time rest) {start stop : ℚ} (hstop : stop < event.time)
    (key : String) :
    allowedIn key start stop (limiter.answers map (event :: rest)) = [] := by
  cases event with
  | cleanup now => exact allowedIn_eq_nil hrest hstop key
  | check other born now =>
      have hlate : ¬ now ≤ stop := not_le_of_gt hstop
      rw [Limiter.answers, allowedIn, List.filter_cons_of_neg (by simp [hlate])]
      exact allowedIn_eq_nil hrest hstop key

/-- A first event adds at most what it takes. -/
theorem length_allowedIn_cons_le (limiter : Limiter n) (map : ShardedMap n) (event : Event)
    (rest : List Event) (key : String) (start stop : ℚ) :
    ((allowedIn key start stop (limiter.answers map (event :: rest))).length : ℚ) ≤
      limiter.cost map key event +
        (allowedIn key start stop (limiter.answers (limiter.after map event) rest)).length := by
  cases event with
  | cleanup now => simp [Limiter.answers, Limiter.cost]
  | check other born now =>
      rw [Limiter.answers, allowedIn, List.filter_cons]
      split_ifs with hcounts
      · rw [Bool.and_eq_true, decide_eq_true_eq] at hcounts
        rw [Limiter.cost, if_pos ⟨hcounts.1.1, hcounts.2⟩, List.length_cons, Nat.cast_succ,
          add_comm, allowedIn]
      · have hcost : 0 ≤ limiter.cost map key (.check other born now) := by
          rw [Limiter.cost]
          split_ifs <;> norm_num
        rw [← allowedIn]
        linarith

/-- One event of the window, when the events after it are paid for. -/
theorem length_allowedIn_cons_le_level (hper : 0 < limiter.perSecond)
    (hkept : limiter.WellKept clock map) {event : Event} {rest : List Event}
    (hbegins : clock ≤ event.begins) (htime : event.begins ≤ event.time) (key : String)
    {start stop : ℚ}
    (hrest : ((allowedIn key start stop
        (limiter.answers (limiter.after map event) rest)).length : ℚ) ≤
      limiter.level (limiter.after map event) key event.time +
        (stop - event.time) * limiter.perSecond) :
    ((allowedIn key start stop (limiter.answers map (event :: rest))).length : ℚ) ≤
      limiter.level map key event.time + (stop - event.time) * limiter.perSecond := by
  rw [level_after hper hkept hbegins htime key] at hrest
  calc ((allowedIn key start stop (limiter.answers map (event :: rest))).length : ℚ)
      ≤ limiter.cost map key event +
          (allowedIn key start stop (limiter.answers (limiter.after map event) rest)).length :=
        length_allowedIn_cons_le limiter map event rest key start stop
    _ ≤ limiter.cost map key event + (limiter.level map key event.time -
          limiter.cost map key event + (stop - event.time) * limiter.perSecond) := by
        gcongr
    _ = limiter.level map key event.time + (stop - event.time) * limiter.perSecond := by ring

/-- **The potential**: the checks allowed up to a time are paid for by the level
and by what can still be refilled. -/
theorem length_allowedIn_le_level (hper : 0 < limiter.perSecond)
    (hkept : limiter.WellKept clock map) (hchron : Chronological clock events) (key : String)
    (start : ℚ) {stop : ℚ} (hstop : clock ≤ stop) :
    ((allowedIn key start stop (limiter.answers map events)).length : ℚ) ≤
      limiter.level map key clock + (stop - clock) * limiter.perSecond := by
  have hbound : ∀ {clock : ℚ} {map : ShardedMap n}, limiter.WellKept clock map → clock ≤ stop →
      0 ≤ limiter.level map key clock + (stop - clock) * limiter.perSecond :=
    fun hkept hstop => add_nonneg (level_nonneg hkept key _)
      (mul_nonneg (sub_nonneg.mpr hstop) (Nat.cast_nonneg _))
  induction events generalizing clock map with
  | nil => simpa [Limiter.answers, allowedIn] using hbound hkept hstop
  | cons event rest ih =>
      obtain ⟨hbegins, htime, hrest⟩ := hchron
      rcases le_or_gt event.time stop with hin | hout
      · have hlater := ih (wellKept_after hkept hbegins htime) hrest hin
        have hrise := level_le_add hkept key (hbegins.trans htime)
        calc ((allowedIn key start stop (limiter.answers map (event :: rest))).length : ℚ)
            ≤ limiter.level map key event.time + (stop - event.time) * limiter.perSecond :=
              length_allowedIn_cons_le_level hper hkept hbegins htime key hlater
          _ ≤ limiter.level map key clock + (event.time - clock) * limiter.perSecond +
                (stop - event.time) * limiter.perSecond := by
              gcongr
          _ = limiter.level map key clock + (stop - clock) * limiter.perSecond := by ring
      · rw [allowedIn_cons_eq_nil hrest hout]
        simpa using hbound hkept hstop

/-- At most `burst` checks and those the refill pays for are allowed in a window. -/
theorem length_allowedIn_le (hper : 0 < limiter.perSecond) (hkept : limiter.WellKept clock map)
    (hchron : Chronological clock events) (key : String) (start stop : ℚ)
    (hwindow : start ≤ stop) :
    ((allowedIn key start stop (limiter.answers map events)).length : ℚ) ≤
      limiter.burst + (stop - start) * limiter.perSecond := by
  have hbound : (0 : ℚ) ≤ limiter.burst + (stop - start) * limiter.perSecond :=
    add_nonneg (Nat.cast_nonneg _) (mul_nonneg (sub_nonneg.mpr hwindow) (Nat.cast_nonneg _))
  induction events generalizing clock map with
  | nil => simpa [Limiter.answers, allowedIn] using hbound
  | cons event rest ih =>
      obtain ⟨hbegins, htime, hrest⟩ := hchron
      have hkept' := wellKept_after hkept hbegins htime
      rcases lt_or_ge event.time start with hbefore | hin
      · -- nothing is counted before the window
        have hskip : allowedIn key start stop (limiter.answers map (event :: rest)) =
            allowedIn key start stop (limiter.answers (limiter.after map event) rest) := by
          cases event with
          | cleanup now => rfl
          | check other born now =>
              have hearly : ¬ start ≤ now := not_le_of_gt hbefore
              rw [Limiter.answers, allowedIn, List.filter_cons_of_neg (by simp [hearly])]
              rfl
        rw [hskip]
        exact ih hkept' hrest
      · rcases le_or_gt event.time stop with hstop | hout
        · have hlater := length_allowedIn_le_level hper hkept' hrest key start hstop
          calc ((allowedIn key start stop (limiter.answers map (event :: rest))).length : ℚ)
              ≤ limiter.level map key event.time + (stop - event.time) * limiter.perSecond :=
                length_allowedIn_cons_le_level hper hkept hbegins htime key hlater
            _ ≤ limiter.burst + (stop - start) * limiter.perSecond := by
                gcongr
                exact level_le_burst limiter map key event.time
        · rw [allowedIn_cons_eq_nil hrest hout]
          simpa using hbound

/-- Events that do not check the key leave its level. -/
theorem level_after_of_not_checks (hper : 0 < limiter.perSecond)
    (hkept : limiter.WellKept clock map) {event : Event} (hbegins : clock ≤ event.begins)
    {key : String} (hchecks : event.checks key = false) {t : ℚ} (ht : event.time ≤ t) :
    limiter.level (limiter.after map event) key t = limiter.level map key t := by
  cases event with
  | cleanup now => exact level_cleanup hper hkept hbegins ht key
  | check other born now =>
      have hother : key ≠ other := fun heq => by simp [Event.checks, heq] at hchecks
      by_cases hcap : limiter.bucket other map = none ∧ limiter.full map = true
      · rw [Limiter.after, checkOrInsert_full born now hcap.1 hcap.2]
      · have hanswer := checkOrInsert_answer limiter map other born now
          fun hnone => by simpa [hnone] using hcap
        rw [Limiter.after, hanswer.2, level_insert_other hother]

theorem level_run_of_not_checks (hper : 0 < limiter.perSecond)
    (hkept : limiter.WellKept clock map) {rest : List Event}
    (hchron : Chronological clock (events ++ rest)) {key : String}
    (hchecks : ∀ event ∈ events, event.checks key = false) {t : ℚ}
    (ht : ∀ event ∈ events, event.time ≤ t) :
    limiter.level (limiter.run map events) key t = limiter.level map key t := by
  induction events generalizing clock map with
  | nil => rfl
  | cons event later ih =>
      obtain ⟨hbegins, htime, hlater⟩ := hchron
      rw [List.forall_mem_cons] at hchecks ht
      have hnext := ih (wellKept_after hkept hbegins htime) hlater hchecks.2 ht.2
      exact hnext.trans (level_after_of_not_checks hper hkept hbegins hchecks.1 ht.1)

end Runs

/-! ## Waiting for a token -/

section Retry

variable {limiter : Limiter n} {map : ShardedMap n} {clock : ℚ} {key : String}

/-- The only key that can be tracked is `key`. -/
def Limiter.Sole (limiter : Limiter n) (key : String) (map : ShardedMap n) : Prop :=
  ∀ i other, other ∈ map i → other = key ∧ i = limiter.shardIndex key

/-- A limiter that tracks one key at most does not turn it away. -/
theorem Limiter.Sole.full_eq_false (hsole : limiter.Sole key map)
    (hbucket : limiter.bucket key map = none) : limiter.full map = false := by
  have hempty : ∀ i, (map i).len = 0 := by
    intro i
    rw [AList.len_eq_length_keys, List.length_eq_zero_iff, List.eq_nil_iff_forall_not_mem]
    intro other hother
    obtain ⟨rfl, rfl⟩ := hsole i other hother
    exact AList.lookup_eq_none.mp hbucket hother
  have htotal : total map = 0 := Finset.sum_eq_zero fun i _ => hempty i
  simp only [Limiter.full, htotal, decide_eq_false_iff_not, not_and, not_le, imp_self]

theorem sole_empty (limiter : Limiter n) (key : String) : limiter.Sole key (fun _ => ∅) :=
  fun _ other hother => absurd hother (AList.notMem_empty other)

theorem Limiter.Sole.insert (hsole : limiter.Sole key map) (bucket : TokenBucket) :
    limiter.Sole key (limiter.insert key bucket map) := by
  intro i other hother
  unfold Limiter.insert at hother
  by_cases hshard : i = limiter.shardIndex key
  · subst hshard
    rw [Function.update_self, AList.mem_insert] at hother
    rcases hother with rfl | hother
    · exact ⟨rfl, rfl⟩
    · exact hsole _ other hother
  · rw [Function.update_of_ne hshard] at hother
    exact hsole i other hother

theorem Limiter.Sole.after (hsole : limiter.Sole key map) {event : Event}
    (hevent : event.isCheck = true → event.checks key = true) :
    limiter.Sole key (limiter.after map event) := by
  cases event with
  | cleanup now =>
      intro i other hother
      refine hsole i other ?_
      rw [← AList.lookup_isSome] at hother ⊢
      rw [Limiter.after, Limiter.cleanup, Limiter.retainRecent, AList.lookup_retain] at hother
      exact Option.isSome_of_isSome_filter _ _ hother
  | check other born now =>
      obtain rfl : other = key := by simpa [Event.isCheck, Event.checks] using hevent
      have hanswer := checkOrInsert_answer limiter map other born now
        hsole.full_eq_false
      rw [Limiter.after, hanswer.2]
      exact hsole.insert _

theorem Limiter.Sole.run (hsole : limiter.Sole key map) {events : List Event}
    (hevents : ∀ event ∈ events, event.isCheck = true → event.checks key = true) :
    limiter.Sole key (limiter.run map events) := by
  induction events generalizing map with
  | nil => exact hsole
  | cons event rest ih =>
      rw [List.forall_mem_cons] at hevents
      exact ih (hsole.after hevents.1) hevents.2

/-- After the time of a rejection the next check is allowed. -/
theorem isAllowed_of_rejected (hper : 1 ≤ limiter.perSecond) (hburst : 1 ≤ limiter.burst)
    (hkept : limiter.WellKept clock map) {born now born' now' retry : ℚ}
    {middle rest : List Event}
    (hchron : Chronological clock
      (.check key born now :: (middle ++ .check key born' now' :: rest)))
    (hmiddle : ∀ event ∈ middle, event.checks key = false)
    (hcap : limiter.bucket key map = none → limiter.full map = false)
    (hcap' : limiter.bucket key (limiter.run map (.check key born now :: middle)) = none →
      limiter.full (limiter.run map (.check key born now :: middle)) = false)
    (hrejected : (limiter.checkOrInsert key born now map).1 = .rejected retry)
    (hwait : now + retry ≤ now') :
    (limiter.checkOrInsert key born' now'
      (limiter.run map (.check key born now :: middle))).1.isAllowed = true := by
  obtain ⟨hresult, hmap⟩ := checkOrInsert_answer limiter map key born now hcap
  obtain ⟨hbegins, htime, hlater⟩ := hchron
  have hkept' := wellKept_after hkept hbegins htime
  obtain ⟨pause, hpause, htimes, -, hchron'⟩ := wellKept_run hkept' hlater
  have hnow' : pause ≤ now' := hchron'.1.trans hchron'.2.1
  have hle : now ≤ now' := le_trans hpause hnow'
  -- the rejection says how far the level is from one token
  have hlow : ¬ 1 ≤ limiter.level map key now ∧
      retry = (1 - limiter.level map key now) / limiter.perSecond := by
    rw [hresult, Limiter.answer] at hrejected
    split_ifs at hrejected with hone
    exact ⟨hone, (CheckResult.rejected.inj hrejected).symm⟩
  have hlevel : limiter.level (limiter.run map (.check key born now :: middle)) key now' =
      limiter.risen (limiter.level map key now) (now' - now) := by
    have hrun := level_run_of_not_checks (Nat.lt_of_lt_of_le Nat.zero_lt_one hper) hkept' hlater
      hmiddle fun event hevent => (htimes event hevent).trans hnow'
    refine hrun.trans ?_
    rw [Limiter.after, hmap, level_insert_self map hle, spend, if_neg hlow.1]
  have hone : 1 ≤ limiter.risen (limiter.level map key now) (now' - now) := by
    have hpos : (0 : ℚ) < limiter.perSecond := Nat.cast_pos.mpr hper
    refine le_min ?_ (Nat.one_le_cast.mpr hburst)
    have hdeficit : 1 - limiter.level map key now ≤ (now' - now) * limiter.perSecond := by
      rw [← div_le_iff₀ hpos, ← hlow.2]
      linarith
    linarith
  rw [(checkOrInsert_answer limiter _ key born' now' hcap').1, hlevel, Limiter.answer, if_pos hone]
  rfl

end Retry

/-! ## The results -/

/-- **The rate limiter bounds every window**: in any run of checks and cleanups the
checks of a key that are allowed in `T` seconds are at most `burst + perSecond * T`,
the tokens of every bucket stay between zero and `burst`, and when only this key
is checked, or the number of keys is not capped, a check that was rejected is
followed by one that is allowed, if that is made after the time it was told. -/
theorem rate_limit_bound (limiter : Limiter n) (hper : 1 ≤ limiter.perSecond)
    (hburst : 1 ≤ limiter.burst) (key : String) (clock : ℚ) (events : List Event)
    (hchron : Chronological clock events) :
    (∀ start T : ℚ, 0 ≤ T →
      ((allowedIn key start (start + T) (limiter.answers (fun _ => ∅) events)).length : ℚ) ≤
        limiter.burst + limiter.perSecond * T) ∧
    (∀ other bucket, limiter.bucket other (limiter.run (fun _ => ∅) events) = some bucket →
      0 ≤ bucket.tokens ∧ bucket.tokens ≤ limiter.burst) ∧
    ((∀ event ∈ events, event.isCheck = true → event.checks key = true) ∨ limiter.maxKeys = 0 →
      ∀ (first middle rest : List Event) (born now born' now' retry : ℚ),
        events = first ++ .check key born now :: (middle ++ .check key born' now' :: rest) →
        (∀ event ∈ middle, event.checks key = false) →
        (limiter.checkOrInsert key born now (limiter.run (fun _ => ∅) first)).1 =
          .rejected retry →
        now + retry ≤ now' →
        (limiter.checkOrInsert key born' now' (limiter.run (fun _ => ∅)
          (first ++ .check key born now :: middle))).1.isAllowed = true) := by
  have hstart := wellKept_empty limiter clock
  refine ⟨?_, ?_, ?_⟩
  · intro start T hT
    have hwindow := length_allowedIn_le (Nat.lt_of_lt_of_le Nat.zero_lt_one hper) hstart hchron key
      start (start + T) (by linarith)
    rwa [add_sub_cancel_left, mul_comm] at hwindow
  · intro other bucket hbucket
    rw [← List.append_nil events] at hchron
    obtain ⟨later, -, -, hkept, -⟩ := wellKept_run hstart hchron
    obtain ⟨hnonneg, hle, -⟩ := hkept other bucket hbucket
    exact ⟨hnonneg, hle⟩
  · rintro hcap first middle rest born now born' now' retry rfl hmiddle hrejected hwait
    obtain ⟨later, -, -, hkept, hchron'⟩ := wellKept_run hstart hchron
    -- without a cap, or when only this key is checked, its bucket is not refused for lack of room
    have huncapped : ∀ played ⊆ first ++ .check key born now ::
        (middle ++ .check key born' now' :: rest),
        limiter.bucket key (limiter.run (fun _ => ∅) played) = none →
        limiter.full (limiter.run (fun _ => ∅) played) = false := by
      intro played hplayed hbucket
      rcases hcap with hsole | hnone
      · exact ((sole_empty limiter key).run fun event hevent =>
          hsole event (hplayed hevent)).full_eq_false hbucket
      · simp [Limiter.full, hnone]
    have hrun : limiter.run (fun _ => ∅) (first ++ .check key born now :: middle) =
        limiter.run (limiter.run (fun _ => ∅) first) (.check key born now :: middle) :=
      List.foldl_append
    have hfirst := huncapped first (List.subset_append_left _ _)
    have hsecond := huncapped (first ++ .check key born now :: middle) (by
      intro event hevent
      simp only [List.mem_append, List.mem_cons] at hevent ⊢
      tauto)
    rw [hrun] at hsecond ⊢
    exact isAllowed_of_rejected hper hburst hkept hchron' hmiddle hfirst hsecond hrejected hwait

/-- One token a second, one at a time, in the default number of shards. -/
def slowLimiter : Limiter 16 where
  hash key := key.length
  perSecond := 1
  burst := 1
  maxKeys := 0

/-- The second check comes too early, and the third one as late as it was told. -/
def threeChecks : List Event :=
  [.check "a" 0 0, .check "a" (1 / 2) (1 / 2), .check "a" 1 1]

theorem threeChecks_bound :
    ((allowedIn "a" 0 (0 + 1) (slowLimiter.answers (fun _ => ∅) threeChecks)).length : ℚ) ≤
      slowLimiter.burst + slowLimiter.perSecond * 1 ∧
    (slowLimiter.checkOrInsert "a" 1 1 (slowLimiter.run (fun _ => ∅)
      ([.check "a" 0 0] ++ .check "a" (1 / 2) (1 / 2) :: []))).1.isAllowed = true := by
  have hbound := rate_limit_bound slowLimiter (le_refl 1) (le_refl 1) "a" 0 threeChecks
    (by norm_num [threeChecks, Chronological, Event.begins, Event.time])
  refine ⟨hbound.1 0 1 zero_le_one, ?_⟩
  exact hbound.2.2 (Or.inr rfl) [.check "a" 0 0] [] [] (1 / 2) (1 / 2) 1 1 (1 / 2) rfl (by simp)
    (by decide +kernel) (by norm_num)

/-- Two maps with the same levels from the clock on. -/
def Limiter.SameLevels (limiter : Limiter n) (clock : ℚ) (map map' : ShardedMap n) : Prop :=
  ∀ key t, clock ≤ t → limiter.level map key t = limiter.level map' key t

/-- Without a cap, maps with the same levels answer alike. -/
theorem sameLevels_check {limiter : Limiter n} (hcap : limiter.maxKeys = 0) {clock : ℚ}
    {map map' : ShardedMap n} (hsame : limiter.SameLevels clock map map') (key : String)
    (born : ℚ) {now : ℚ} (hnow : clock ≤ now) :
    (limiter.checkOrInsert key born now map).1 = (limiter.checkOrInsert key born now map').1 ∧
      limiter.SameLevels now (limiter.checkOrInsert key born now map).2
        (limiter.checkOrInsert key born now map').2 := by
  have huncapped : ∀ map : ShardedMap n, limiter.bucket key map = none →
      limiter.full map = false := by simp [Limiter.full, hcap]
  obtain ⟨hresult, hmap⟩ := checkOrInsert_answer limiter map key born now (huncapped map)
  obtain ⟨hresult', hmap'⟩ := checkOrInsert_answer limiter map' key born now (huncapped map')
  rw [hresult, hresult', hmap, hmap', hsame key now hnow]
  refine ⟨rfl, ?_⟩
  intro other t ht
  by_cases hother : other = key
  · subst hother
    rw [level_insert_self map ht, level_insert_self map' ht]
  · rw [level_insert_other hother, level_insert_other hother]
    exact hsame other t (hnow.trans ht)

/-- Cleanups can be left out of a run. -/
theorem answers_eq_of_sameLevels {limiter : Limiter n} (hcap : limiter.maxKeys = 0)
    (hper : 0 < limiter.perSecond) {clock : ℚ} {map map' : ShardedMap n} {events : List Event}
    (hkept : limiter.WellKept clock map) (hsame : limiter.SameLevels clock map map')
    (hchron : Chronological clock events) :
    limiter.answers map events = limiter.answers map' (events.filter Event.isCheck) := by
  induction events generalizing clock map map' with
  | nil => rfl
  | cons event rest ih =>
      obtain ⟨hbegins, htime, hrest⟩ := hchron
      have hkept' := wellKept_after hkept hbegins htime
      cases event with
      | cleanup now =>
          rw [List.filter_cons_of_neg (by simp [Event.isCheck])]
          refine ih hkept' ?_ hrest
          intro key t ht
          exact (level_cleanup hper hkept hbegins ht key).trans (hsame key t (hbegins.trans ht))
      | check key born now =>
          have hnow : clock ≤ now := hbegins.trans htime
          obtain ⟨hresult, hnext⟩ := sameLevels_check hcap hsame key born hnow
          rw [List.filter_cons_of_pos rfl, Limiter.answers, Limiter.answers, hresult]
          exact congrArg _ (ih hkept' hnext hrest)

/-- **Cleanups are unobservable**: without a cap on the keys, a run gives the same
answers as with its cleanups left out. -/
theorem cleanup_unobservable (limiter : Limiter n) (hcap : limiter.maxKeys = 0)
    (hper : 1 ≤ limiter.perSecond) (clock : ℚ) (events : List Event)
    (hchron : Chronological clock events) :
    limiter.answers (fun _ => ∅) events =
      limiter.answers (fun _ => ∅) (events.filter Event.isCheck) :=
  answers_eq_of_sameLevels hcap hper (wellKept_empty limiter clock) (fun _ _ _ => rfl) hchron

/-- The bucket of `a` is dropped between its checks. -/
theorem dropped_bucket_unobservable :
    slowLimiter.bucket "a" (slowLimiter.run (fun _ => ∅) [.check "a" 0 0, .cleanup 1]) = none ∧
    slowLimiter.answers (fun _ => ∅) [.check "a" 0 0, .cleanup 1, .check "a" 2 2] =
      slowLimiter.answers (fun _ => ∅) [.check "a" 0 0, .check "a" 2 2] := by
  refine ⟨by decide +kernel, ?_⟩
  exact cleanup_unobservable slowLimiter rfl (le_refl 1) 0
    [.check "a" 0 0, .cleanup 1, .check "a" 2 2]
    (by norm_num [Chronological, Event.begins, Event.time])

end Modo.RateLimit
