import Mathlib.Algebra.Order.BigOperators.Group.Finset
import Mathlib.Order.Interval.Finset.Fin
import Modo.Lib.Machine
import Modo.Middleware.RateLimit

/-!
# The cap on the number of tracked keys

`check_or_insert` takes the locks of the shards one after the other: it looks for
the key under the read lock of its shard, sums the lengths of the shards under one
read lock each, and inserts under the write lock of the key's shard.  Between two
sections other calls and passes of `cleanup` run.

A call that has read the length of a shard misses what another call inserts into it
afterwards (`stale`).  Such a call may insert although the map is full
(`overlapping_inserts_exceed_cap`).  A call that is not stale never does
(`Counted`), so the cap holds along a run exactly when no stale call inserts into a
full map (`key_cap_iff`).
-/

namespace Modo.RateLimit

/-! ## Calls -/

/-- Where a call of `check_or_insert` stands. -/
inductive Phase (n : ℕ) where
  /-- Before the read section. -/
  | reading
  /-- The key was found; before the write section of the fast path. -/
  | found
  /-- Before the length of shard `next` is read; the lengths so far add up to `sum`. -/
  | counting (next : Fin n) (sum : ℕ)
  /-- Before the write section that inserts. -/
  | writing
  | returned (result : CheckResult)
  deriving DecidableEq

/-- A call; `stale` tells whether a key was inserted by another call into a shard
whose length this call had read. -/
structure Call (n : ℕ) where
  key : String
  phase : Phase n
  stale : Bool
  deriving DecidableEq

/-- A pass of `cleanup`: its instant, and the shards it has yet to visit. -/
structure Pass (n : ℕ) where
  now : ℚ
  rest : List (Fin n)
  deriving DecidableEq

/-- The map, and the calls and passes by number. -/
structure State (n : ℕ) where
  map : ShardedMap n
  calls : ℕ → Option (Call n)
  passes : ℕ → Option (Pass n)

/-- No key, no call. -/
def State.initial (n : ℕ) : State n := ⟨fun _ => ∅, fun _ => none, fun _ => none⟩

/-- The steps: every call and every pass runs its sections one at a time. -/
inductive Action where
  | start (id : ℕ) (key : String)
  /-- The next section of a call, at the instants that `born` and `now` read. -/
  | advance (id : ℕ) (born now : ℚ)
  | startCleanup (id : ℕ) (now : ℚ)
  /-- The write section of the next shard of a pass. -/
  | retain (id : ℕ)

/-- The length of the shard has been read. -/
def Phase.hasCounted {n : ℕ} (shard : Fin n) : Phase n → Bool
  | counting next _ => decide (shard < next)
  | writing => true
  | _ => false

section Step

variable {n : ℕ} [NeZero n] (limiter : Limiter n)

/-- After the fast path: the keys are counted when there is a cap. -/
def Limiter.slowPath : Phase n :=
  if 0 < limiter.maxKeys then .counting 0 0 else .writing

/-- Read one more length. -/
def Limiter.countShard (map : ShardedMap n) (next : Fin n) (sum : ℕ) : Phase n :=
  let sum := sum + (map next).len
  if hlast : next.val + 1 < n then .counting ⟨next.val + 1, hlast⟩ sum
  else if limiter.maxKeys ≤ sum then .returned (.rejected 1)
  else .writing

/-- The next section of a call for `key`. -/
def Limiter.advance (key : String) (born now : ℚ) (map : ShardedMap n) :
    Phase n → Option (ShardedMap n × Phase n)
  | .reading => some (map, if limiter.containsKey key map then .found else limiter.slowPath)
  | .found =>
      match limiter.checkFound key now map with
      | some (result, map) => some (map, .returned result)
      | none => some (map, limiter.slowPath)
  | .counting next sum => some (map, limiter.countShard map next sum)
  | .writing =>
      let (result, map) := limiter.checkOrNew key born now map
      some (map, .returned result)
  | .returned _ => none

/-- The next section of the call adds its key to the map. -/
def Limiter.inserts (map : ShardedMap n) (call : Call n) : Bool :=
  decide (call.phase = .writing) && !limiter.containsKey call.key map

/-- A new key in `shard` is missed by the calls that have counted the shard. -/
def markStale (shard : Fin n) (calls : ℕ → Option (Call n)) : ℕ → Option (Call n) :=
  fun id => (calls id).map fun call =>
    { call with stale := call.stale || call.phase.hasCounted shard }

/-- The calls when the next section of `call` is over. -/
def Limiter.callsAfter (state : State n) (call : Call n) : ℕ → Option (Call n) :=
  if limiter.inserts state.map call then markStale (limiter.shardIndex call.key) state.calls
  else state.calls

def Limiter.step (state : State n) : Action → Option (State n)
  | .start id key =>
      if (state.calls id).isSome then none
      else some { state with calls := Function.update state.calls id (some ⟨key, .reading, false⟩) }
  | .advance id born now =>
      match state.calls id with
      | none => none
      | some call =>
          (limiter.advance call.key born now state.map call.phase).map fun (map, phase) =>
            { state with
              map := map
              calls := Function.update (limiter.callsAfter state call) id
                (some { call with phase := phase }) }
  | .startCleanup id now =>
      if (state.passes id).isSome then none
      else some { state with
        passes := Function.update state.passes id (some ⟨now, List.finRange n⟩) }
  | .retain id =>
      match state.passes id with
      | some ⟨now, shard :: rest⟩ =>
          some { state with
            map := Function.update state.map shard (limiter.retainRecent now (state.map shard))
            passes := Function.update state.passes id (some ⟨now, rest⟩) }
      | _ => none

end Step

/-! ## Sums over the first shards -/

section Shards

variable {n : ℕ}

theorem sum_Iio_add_len (map : ShardedMap n) (next : Fin n) :
    ∑ i ∈ Finset.Iio next, (map i).len + (map next).len =
      ∑ i ∈ Finset.Iic next, (map i).len := by
  rw [← Finset.Iio_insert, Finset.sum_insert (by simp), add_comm]

theorem Iio_succ {next : Fin n} (hnext : next.val + 1 < n) :
    Finset.Iio (⟨next.val + 1, hnext⟩ : Fin n) = Finset.Iic next := by
  ext i
  rw [Finset.mem_Iio, Finset.mem_Iic, Fin.lt_def, Fin.le_def]
  exact Nat.lt_succ_iff

/-- The last shard. -/
theorem Iic_eq_univ {next : Fin n} (hlast : ¬ next.val + 1 < n) :
    Finset.Iic next = Finset.univ := by
  ext i
  have hi := i.isLt
  simp only [Finset.mem_Iic, Fin.le_def, Finset.mem_univ, iff_true]
  omega

theorem Iio_zero [NeZero n] : Finset.Iio (0 : Fin n) = ∅ := by
  ext i
  simp

end Shards

/-! ## A call that is not interrupted -/

section Alone

variable {n : ℕ} [NeZero n] {limiter : Limiter n}

theorem step_advance_eq_some {state next : State n} {id : ℕ} {born now : ℚ} :
    limiter.step state (.advance id born now) = some next ↔
      ∃ call map phase, state.calls id = some call ∧
        limiter.advance call.key born now state.map call.phase = some (map, phase) ∧
        next = { state with
          map := map
          calls := Function.update (limiter.callsAfter state call) id
            (some { call with phase := phase }) } := by
  rw [Limiter.step]
  cases state.calls id with
  | none => simp
  | some call =>
      simp only [Option.map_eq_some_iff, Prod.exists, Option.some.injEq, exists_and_left,
        exists_eq_left']
      constructor
      · rintro ⟨map, phase, hadvance, rfl⟩
        exact ⟨map, phase, hadvance, rfl⟩
      · rintro ⟨map, phase, hadvance, rfl⟩
        exact ⟨map, phase, hadvance, rfl⟩

/-- `count` sections of call `id` take it from one phase to another. -/
def Limiter.Alone (limiter : Limiter n) (id : ℕ) (born now : ℚ) (count : ℕ)
    (call : Call n) (map map' : ShardedMap n) (phase phase' : Phase n) : Prop :=
  ∀ state : State n, state.map = map → state.calls id = some { call with phase := phase } →
    ∃ final, Machine.run limiter.step state (List.replicate count (.advance id born now)) =
        some final ∧ final.map = map' ∧ final.calls id = some { call with phase := phase' }

section Chain

variable {id : ℕ} {born now : ℚ} {call : Call n} {map map' map'' : ShardedMap n}
  {phase phase' phase'' : Phase n}

theorem alone_zero : limiter.Alone id born now 0 call map map phase phase :=
  fun state hmap hcall => ⟨state, rfl, hmap, hcall⟩

/-- One section, and then the rest. -/
theorem Limiter.Alone.cons {count : ℕ}
    (hadvance : limiter.advance call.key born now map phase = some (map', phase'))
    (hrest : limiter.Alone id born now count call map' map'' phase' phase'') :
    limiter.Alone id born now (count + 1) call map map'' phase phase'' := by
  rintro state rfl hcall
  obtain ⟨next, hnext⟩ : ∃ next, limiter.step state (.advance id born now) = some next ∧
      next.map = map' ∧ next.calls id = some { call with phase := phase' } := by
    refine ⟨_, step_advance_eq_some.mpr ⟨_, map', phase', hcall, hadvance, rfl⟩, rfl, ?_⟩
    exact Function.update_self id _ _
  obtain ⟨final, hrun, hfinal⟩ := hrest next hnext.2.1 hnext.2.2
  exact ⟨final, Machine.run_cons_eq_some.mpr ⟨next, hnext.1, hrun⟩, hfinal⟩

/-- The lengths are added up to the total, and the cap is compared with it. -/
theorem alone_counting (count : ℕ)
    (hrest : limiter.Alone id born now count call map map'
      (if limiter.maxKeys ≤ total map then .returned (.rejected 1) else .writing) phase')
    (left : ℕ) (next : Fin n) (hleft : next.val + left + 1 = n) :
    limiter.Alone id born now (left + 1 + count) call map map'
      (.counting next (∑ i ∈ Finset.Iio next, (map i).len)) phase' := by
  -- `left` is the number of shards after `next`
  induction left generalizing next with
  | zero =>
      rw [zero_add, Nat.add_comm]
      refine Limiter.Alone.cons ?_ hrest
      rw [Limiter.advance, Limiter.countShard, dif_neg (by omega), sum_Iio_add_len,
        Iic_eq_univ (by omega)]
      rfl
  | succ left ih =>
      have hnext : next.val + 1 < n := by omega
      rw [Nat.add_right_comm]
      refine Limiter.Alone.cons ?_ (ih ⟨next.val + 1, hnext⟩ (by simp only; omega))
      rw [Limiter.advance, Limiter.countShard, dif_pos hnext, sum_Iio_add_len, Iio_succ]

/-- The slow path is the comparison with the cap and the write section. -/
theorem alone_slowPath (id : ℕ) (born now : ℚ) (call : Call n) {map : ShardedMap n}
    {out : CheckResult × ShardedMap n}
    (hout : (if limiter.full map then (.rejected 1, map)
      else limiter.checkOrNew call.key born now map) = out) :
    ∃ count, limiter.Alone id born now count call map out.2 limiter.slowPath
      (.returned out.1) := by
  have hwrite : limiter.Alone id born now 1 call map
      (limiter.checkOrNew call.key born now map).2 .writing
      (.returned (limiter.checkOrNew call.key born now map).1) :=
    Limiter.Alone.cons rfl alone_zero
  by_cases hcap : 0 < limiter.maxKeys
  · have hzero : (Phase.counting 0 0 : Phase n) =
        .counting 0 (∑ i ∈ Finset.Iio 0, (map i).len) := by
      rw [Iio_zero, Finset.sum_empty]
    have hpos : 0 < n := Nat.pos_of_ne_zero (NeZero.ne n)
    have hshards : (0 : Fin n).val + (n - 1) + 1 = n := by
      simp only [Fin.val_zero]
      omega
    rw [Limiter.slowPath, if_pos hcap, hzero, ← hout]
    by_cases hfull : limiter.maxKeys ≤ total map
    · refine ⟨_, alone_counting 0 ?_ (n - 1) 0 hshards⟩
      simpa [Limiter.full, hcap, hfull] using alone_zero
    · refine ⟨_, alone_counting 1 ?_ (n - 1) 0 hshards⟩
      simpa [Limiter.full, hcap, hfull] using hwrite
  · rw [Limiter.slowPath, if_neg hcap, ← hout]
    exact ⟨1, by simpa [Limiter.full, hcap] using hwrite⟩

/-- From the read section on, in the three ways `checkOrInsert` takes. -/
theorem alone_reading (limiter : Limiter n) (id : ℕ) (born now : ℚ) (call : Call n)
    (map : ShardedMap n) :
    ∃ count, limiter.Alone id born now count call map
      (limiter.checkOrInsert call.key born now map).2 .reading
      (.returned (limiter.checkOrInsert call.key born now map).1) := by
  generalize hout : limiter.checkOrInsert call.key born now map = out
  rw [Limiter.checkOrInsert] at hout
  cases hcontains : limiter.containsKey call.key map with
  | false =>
      obtain ⟨count, hslow⟩ := alone_slowPath id born now call (by simpa [hcontains] using hout)
      have hread : limiter.advance call.key born now map .reading =
          some (map, limiter.slowPath) := by
        rw [Limiter.advance, hcontains, if_neg Bool.false_ne_true]
      exact ⟨count + 1, hslow.cons hread⟩
  | true =>
      have hread : limiter.advance call.key born now map .reading = some (map, .found) := by
        rw [Limiter.advance, hcontains, if_pos rfl]
      cases hcheck : limiter.checkFound call.key now map with
      | none =>
          obtain ⟨count, hslow⟩ :=
            alone_slowPath id born now call (by simpa [hcontains, hcheck] using hout)
          have hfound : limiter.advance call.key born now map .found =
              some (map, limiter.slowPath) := by
            rw [Limiter.advance, hcheck]
          exact ⟨count + 2, (hslow.cons hfound).cons hread⟩
      | some found =>
          rw [hcontains, if_pos rfl, hcheck] at hout
          have hfound : limiter.advance call.key born now map .found =
              some (out.2, .returned out.1) := by
            rw [Limiter.advance, hcheck, ← hout]
          exact ⟨2, (alone_zero.cons hfound).cons hread⟩

end Chain

/-- A call whose sections no other call or pass interrupts is `checkOrInsert`. -/
theorem alone_checkOrInsert (limiter : Limiter n) (id : ℕ) (key : String) (born now : ℚ)
    (state : State n) (hfresh : state.calls id = none) :
    ∃ count final,
      Machine.run limiter.step state
        (.start id key :: List.replicate count (.advance id born now)) = some final ∧
      final.map = (limiter.checkOrInsert key born now state.map).2 ∧
      final.calls id = some
        ⟨key, .returned (limiter.checkOrInsert key born now state.map).1, false⟩ := by
  obtain ⟨next, hstart, hmap, hcall⟩ : ∃ next, limiter.step state (.start id key) = some next ∧
      next.map = state.map ∧ next.calls id = some ⟨key, .reading, false⟩ := by
    refine ⟨{ state with calls := Function.update state.calls id (some ⟨key, .reading, false⟩) },
      ?_, rfl, Function.update_self id _ state.calls⟩
    rw [Limiter.step, hfresh]
    rfl
  obtain ⟨count, halone⟩ := alone_reading limiter id born now ⟨key, .reading, false⟩ state.map
  obtain ⟨final, hrun, hfinal⟩ := halone next hmap hcall
  exact ⟨count, final, Machine.run_cons_eq_some.mpr ⟨next, hstart, hrun⟩, hfinal⟩

end Alone

/-! ## What a section does to the lengths -/

section Lengths

variable {n : ℕ} [NeZero n] {limiter : Limiter n} {map : ShardedMap n} {key : String}

theorem len_insert (bucket : TokenBucket) (i : Fin n) :
    (limiter.insert key bucket map i).len =
      (map i).len +
        if limiter.containsKey key map = false ∧ i = limiter.shardIndex key then 1 else 0 := by
  unfold Limiter.insert
  by_cases hshard : i = limiter.shardIndex key
  · subst hshard
    rw [Function.update_self]
    by_cases hmem : key ∈ map (limiter.shardIndex key)
    · simp [AList.len_insert_of_mem hmem, Limiter.containsKey, hmem]
    · simp [AList.len_insert_of_notMem hmem, Limiter.containsKey, hmem]
  · simp [hshard]

/-- The lengths after the next section of a call: one more in the key's shard if it
inserts, and the same otherwise. -/
theorem len_advance {call : Call n} {born now : ℚ} {map' : ShardedMap n} {phase : Phase n}
    (hadvance : limiter.advance call.key born now map call.phase = some (map', phase))
    (i : Fin n) :
    (map' i).len =
      (map i).len +
        if limiter.inserts map call = true ∧ i = limiter.shardIndex call.key then 1 else 0 := by
  cases hphase : call.phase with
  | reading =>
      rw [hphase, Limiter.advance, Option.some.injEq, Prod.mk.injEq] at hadvance
      simp [Limiter.inserts, hphase, ← hadvance.1]
  | found =>
      rw [hphase, Limiter.advance] at hadvance
      cases hcheck : limiter.checkFound call.key now map with
      | none =>
          rw [hcheck] at hadvance
          simp only [Option.some.injEq, Prod.mk.injEq] at hadvance
          simp [Limiter.inserts, hphase, ← hadvance.1]
      | some out =>
          rw [hcheck] at hadvance
          simp only [Option.some.injEq, Prod.mk.injEq] at hadvance
          obtain ⟨bucket, hbucket, hout⟩ := Option.map_eq_some_iff.mp hcheck
          -- a bucket that is found is replaced
          have hmem : call.key ∈ map (limiter.shardIndex call.key) :=
            AList.lookup_isSome.mp (Option.isSome_iff_exists.mpr ⟨bucket, hbucket⟩)
          have hmap : map' = limiter.insert call.key
              (bucket.check limiter.perSecond limiter.burst now).2 map := by
            rw [← hadvance.1, ← hout]
            rfl
          rw [hmap, len_insert]
          simp [Limiter.inserts, hphase, Limiter.containsKey, hmem]
  | counting next sum =>
      rw [hphase, Limiter.advance, Option.some.injEq, Prod.mk.injEq] at hadvance
      simp [Limiter.inserts, hphase, ← hadvance.1]
  | writing =>
      rw [hphase, Limiter.advance] at hadvance
      simp only [Option.some.injEq, Prod.mk.injEq] at hadvance
      rw [← hadvance.1, Limiter.checkOrNew, Limiter.checkBucket, len_insert]
      simp [Limiter.inserts, hphase]
  | returned result =>
      rw [hphase, Limiter.advance] at hadvance
      cases hadvance

theorem total_advance {call : Call n} {born now : ℚ} {map' : ShardedMap n} {phase : Phase n}
    (hadvance : limiter.advance call.key born now map call.phase = some (map', phase)) :
    total map' = total map + if limiter.inserts map call = true then 1 else 0 := by
  unfold total
  simp only [len_advance hadvance, Finset.sum_add_distrib]
  congr 1
  by_cases hinserts : limiter.inserts map call = true
  · simp [hinserts]
  · simp [hinserts]

omit [NeZero n] in
theorem len_retainRecent_le (limiter : Limiter n) (map : ShardedMap n) (now : ℚ)
    (shard i : Fin n) :
    (Function.update map shard (limiter.retainRecent now (map shard)) i).len ≤ (map i).len := by
  by_cases hshard : i = shard
  · subst hshard
    rw [Function.update_self]
    exact AList.len_retain_le _ _
  · rw [Function.update_of_ne hshard]

end Lengths

/-! ## The invariant -/

section Invariant

variable {n : ℕ} {limiter : Limiter n} {map map' : ShardedMap n}

/-- What a call that is not stale knows: its sum is at least the lengths of the
shards it has counted, and once it has counted them all there is room. -/
def Limiter.Counted (limiter : Limiter n) (map : ShardedMap n) : Phase n → Prop
  | .counting next sum => ∑ i ∈ Finset.Iio next, (map i).len ≤ sum
  | .writing => total map < limiter.maxKeys
  | _ => True

theorem total_mono (hlen : ∀ i, (map' i).len ≤ (map i).len) : total map' ≤ total map :=
  Finset.sum_le_sum fun i _ => hlen i

/-- Fewer keys change nothing. -/
theorem Counted.mono {phase : Phase n} (hcounted : limiter.Counted map phase)
    (hlen : ∀ i, (map' i).len ≤ (map i).len) : limiter.Counted map' phase := by
  cases phase with
  | counting next sum => exact (Finset.sum_le_sum fun i _ => hlen i).trans hcounted
  | writing => exact (total_mono hlen).trans_lt hcounted
  | reading => trivial
  | found => trivial
  | returned result => trivial

/-- A new key in a shard that is yet to be counted changes nothing. -/
theorem Counted.of_not_hasCounted {phase : Phase n} {shard : Fin n}
    (hcounted : limiter.Counted map phase) (hnot : phase.hasCounted shard = false)
    (hlen : ∀ i, i ≠ shard → (map' i).len = (map i).len) : limiter.Counted map' phase := by
  cases phase with
  | counting next sum =>
      have hlater : next ≤ shard := by simpa [Phase.hasCounted] using hnot
      have hsame : ∀ i ∈ Finset.Iio next, (map' i).len = (map i).len := by
        intro i hi
        exact hlen i (Finset.mem_Iio.mp hi |>.trans_le hlater).ne
      exact (Finset.sum_congr rfl hsame).trans_le hcounted
  | writing => cases hnot
  | reading => trivial
  | found => trivial
  | returned result => trivial

/-- One more length read. -/
theorem Counted.countShard {next : Fin n} {sum : ℕ}
    (hcounted : limiter.Counted map (.counting next sum)) :
    limiter.Counted map (limiter.countShard map next sum) := by
  have hsum : ∑ i ∈ Finset.Iic next, (map i).len ≤ sum + (map next).len := by
    rw [← sum_Iio_add_len]
    exact Nat.add_le_add_right hcounted _
  by_cases hlast : next.val + 1 < n
  · rw [Limiter.countShard, dif_pos hlast, Limiter.Counted, Iio_succ]
    exact hsum
  · rw [Iic_eq_univ hlast] at hsum
    rw [Limiter.countShard, dif_neg hlast]
    by_cases hfull : limiter.maxKeys ≤ sum + (map next).len
    · rw [if_pos hfull]
      trivial
    · rw [if_neg hfull]
      exact hsum.trans_lt (not_le.mp hfull)

/-- The calls that are not stale know what they have counted. -/
def Limiter.AllCounted (limiter : Limiter n) (map : ShardedMap n)
    (calls : ℕ → Option (Call n)) : Prop :=
  ∀ id call, calls id = some call → call.stale = false → limiter.Counted map call.phase

theorem AllCounted.mono {calls : ℕ → Option (Call n)} (hcalls : limiter.AllCounted map calls)
    (hlen : ∀ i, (map' i).len ≤ (map i).len) : limiter.AllCounted map' calls :=
  fun id call hcall hstale => Counted.mono (hcalls id call hcall hstale) hlen

/-- A new key in a shard, with the calls that have counted it marked. -/
theorem AllCounted.markStale {calls : ℕ → Option (Call n)} {shard : Fin n}
    (hcalls : limiter.AllCounted map calls)
    (hlen : ∀ i, i ≠ shard → (map' i).len = (map i).len) :
    limiter.AllCounted map' (markStale shard calls) := by
  intro id call hcall hstale
  obtain ⟨before, hbefore, rfl⟩ := Option.map_eq_some_iff.mp hcall
  rw [Bool.or_eq_false_iff] at hstale
  exact Counted.of_not_hasCounted (hcalls id before hbefore hstale.1) hstale.2 hlen

theorem AllCounted.update {calls : ℕ → Option (Call n)} {id : ℕ} {call : Call n}
    (hcalls : limiter.AllCounted map calls)
    (hcall : call.stale = false → limiter.Counted map call.phase) :
    limiter.AllCounted map (Function.update calls id (some call)) := by
  intro other found hfound hstale
  by_cases hother : other = id
  · rw [hother, Function.update_self, Option.some.injEq] at hfound
    subst hfound
    exact hcall hstale
  · rw [Function.update_of_ne hother] at hfound
    exact hcalls other found hfound hstale

variable [NeZero n]

theorem counted_slowPath (hcap : 1 ≤ limiter.maxKeys) : limiter.Counted map limiter.slowPath := by
  rw [Limiter.slowPath, if_pos (Nat.lt_of_succ_le hcap)]
  rw [Limiter.Counted, Iio_zero, Finset.sum_empty]

/-- The next section of a call keeps what it knows. -/
theorem Counted.advance (hcap : 1 ≤ limiter.maxKeys) {key : String} {born now : ℚ}
    {phase phase' : Phase n} (hcounted : limiter.Counted map phase)
    (hadvance : limiter.advance key born now map phase = some (map', phase')) :
    limiter.Counted map' phase' := by
  cases phase with
  | reading =>
      simp only [Limiter.advance, Option.some.injEq, Prod.mk.injEq] at hadvance
      obtain ⟨rfl, rfl⟩ := hadvance
      split
      · trivial
      · exact counted_slowPath hcap
  | found =>
      simp only [Limiter.advance] at hadvance
      split at hadvance
      · rw [Option.some.injEq, Prod.mk.injEq] at hadvance
        obtain ⟨-, rfl⟩ := hadvance
        trivial
      · rw [Option.some.injEq, Prod.mk.injEq] at hadvance
        obtain ⟨rfl, rfl⟩ := hadvance
        exact counted_slowPath hcap
  | counting next sum =>
      simp only [Limiter.advance, Option.some.injEq, Prod.mk.injEq] at hadvance
      obtain ⟨rfl, rfl⟩ := hadvance
      exact Counted.countShard hcounted
  | writing =>
      simp only [Limiter.advance, Option.some.injEq, Prod.mk.injEq] at hadvance
      obtain ⟨-, rfl⟩ := hadvance
      trivial
  | returned result => cases hadvance

/-- The cap holds, and the calls that are not stale know what they have counted. -/
structure Limiter.Within (limiter : Limiter n) (state : State n) : Prop where
  capped : total state.map ≤ limiter.maxKeys
  counted : limiter.AllCounted state.map state.calls

/-- No stale call adds a key to a full map. -/
def Limiter.Roomy (limiter : Limiter n) (state : State n) : Action → Prop
  | .advance id _ _ => ∀ call ∈ state.calls id, call.stale = true →
      limiter.inserts state.map call = true → total state.map < limiter.maxKeys
  | _ => True

instance (state : State n) : (action : Action) → Decidable (limiter.Roomy state action)
  | .advance id _ _ => inferInstanceAs (Decidable (∀ call ∈ state.calls id, call.stale = true →
      limiter.inserts state.map call = true → total state.map < limiter.maxKeys))
  | .start _ _ | .startCleanup _ _ | .retain _ => .isTrue trivial

omit [NeZero n] in
theorem within_initial : limiter.Within (.initial n) :=
  ⟨by simp [total, State.initial], fun _ _ hcall => by cases hcall⟩

theorem allCounted_callsAfter {state : State n} {call : Call n} {born now : ℚ}
    {map : ShardedMap n} {phase : Phase n} (hcalls : limiter.AllCounted state.map state.calls)
    (hadvance : limiter.advance call.key born now state.map call.phase = some (map, phase)) :
    limiter.AllCounted map (limiter.callsAfter state call) := by
  have hlen := len_advance hadvance
  unfold Limiter.callsAfter
  split
  · apply AllCounted.markStale hcalls
    intro i hi
    rw [hlen i, if_neg (fun h => hi h.2), Nat.add_zero]
  · rename_i hinserts
    apply AllCounted.mono hcalls
    intro i
    rw [hlen i, if_neg (fun h => hinserts h.1), Nat.add_zero]

/-- Before a section of a call that adds a key there is room, if the call is not
stale. -/
theorem Limiter.Within.room {state : State n} (hwithin : limiter.Within state) {id : ℕ}
    {call : Call n} (hcall : state.calls id = some call) (hstale : call.stale = false)
    (hinserts : limiter.inserts state.map call = true) :
    total state.map < limiter.maxKeys := by
  have hcounted := hwithin.counted id call hcall hstale
  rw [Limiter.inserts, Bool.and_eq_true, decide_eq_true_eq] at hinserts
  rw [hinserts.1] at hcounted
  exact hcounted

/-- Steps that insert with room keep the invariant. -/
theorem step_within (hcap : 1 ≤ limiter.maxKeys) {state next : State n} {action : Action}
    (hwithin : limiter.Within state) (hroomy : limiter.Roomy state action)
    (hstep : limiter.step state action = some next) : limiter.Within next := by
  cases action with
  | start id key =>
      simp only [Limiter.step] at hstep
      split at hstep
      · cases hstep
      rw [Option.some.injEq] at hstep
      subst hstep
      exact ⟨hwithin.capped, AllCounted.update hwithin.counted fun _ => trivial⟩
  | advance id born now =>
      obtain ⟨call, map, phase, hcall, hadvance, rfl⟩ := step_advance_eq_some.mp hstep
      constructor
      · show total map ≤ limiter.maxKeys
        rw [total_advance hadvance]
        by_cases hinserts : limiter.inserts state.map call = true
        -- a stale call may insert whatever it counted, and then `hroomy` gives the room
        · have hroom : total state.map < limiter.maxKeys := by
            cases hstale : call.stale with
            | true => exact hroomy call hcall hstale hinserts
            | false => exact hwithin.room hcall hstale hinserts
          rw [if_pos hinserts]
          exact hroom
        · rw [if_neg hinserts]
          exact hwithin.capped
      · apply AllCounted.update (allCounted_callsAfter hwithin.counted hadvance)
        intro hstale
        exact Counted.advance hcap (hwithin.counted id call hcall hstale) hadvance
  | startCleanup id now =>
      simp only [Limiter.step] at hstep
      split at hstep
      · cases hstep
      rw [Option.some.injEq] at hstep
      subst hstep
      exact ⟨hwithin.capped, hwithin.counted⟩
  | retain id =>
      simp only [Limiter.step] at hstep
      split at hstep
      · rename_i now shard rest hpass
        rw [Option.some.injEq] at hstep
        subst hstep
        have hlen := len_retainRecent_le limiter state.map now shard
        exact ⟨(total_mono hlen).trans hwithin.capped, AllCounted.mono hwithin.counted hlen⟩
      · cases hstep

/-- A key that a stale call adds to a full map is seen in the total. -/
theorem roomy_of_capped {state next : State n} {action : Action}
    (hstep : limiter.step state action = some next)
    (hcapped : total next.map ≤ limiter.maxKeys) : limiter.Roomy state action := by
  cases action with
  | advance id born now =>
      obtain ⟨call, map, phase, hcall, hadvance, rfl⟩ := step_advance_eq_some.mp hstep
      intro found hfound _ hinserts
      rw [Option.mem_def, hcall, Option.some.injEq] at hfound
      subst hfound
      have htotal := total_advance hadvance
      rw [if_pos hinserts] at htotal
      rw [htotal] at hcapped
      exact Nat.lt_of_succ_le hcapped
  | start id key => trivial
  | startCleanup id now => trivial
  | retain id => trivial

end Invariant

/-- **When the cap holds.**  Along every interleaving of calls and cleanup passes
the number of tracked keys stays within a cap `maxKeys ≥ 1` exactly when no call
adds a key to a full map after missing a key that another call inserted into a shard
whose length it had read. -/
theorem key_cap_iff {n : ℕ} [NeZero n] (limiter : Limiter n) (hcap : 1 ≤ limiter.maxKeys)
    (actions : List Action) :
    (∀ state, Machine.Visits limiter.step (.initial n) actions state →
      total state.map ≤ limiter.maxKeys) ↔
    ∀ state action next, Machine.Taken limiter.step (.initial n) actions state action next →
      limiter.Roomy state action :=
  Machine.visits_iff_allowed limiter.Within (fun state => total state.map ≤ limiter.maxKeys)
    limiter.Roomy (fun _ hwithin => hwithin.capped) (fun _ _ _ => step_within hcap)
    (fun _ _ _ _ => roomy_of_capped) within_initial

/-! ### Two calls and one place -/

/-- One key may be tracked. -/
def oneKey : Limiter 16 := ⟨String.length, 1, 1, 1⟩

/-- The read section of call `id` and the lengths of all shards. -/
def countAll (id : ℕ) : List Action := List.replicate 17 (.advance id 0 0)

/-- The second call begins when the first is over. -/
def insertsOneByOne : List Action :=
  [.start 1 "a"] ++ countAll 1 ++ [.advance 1 0 0] ++ [.start 2 "bb"] ++ countAll 2

/-- The second call of `insertsOneByOne` is rejected, and the cap holds. -/
theorem inserts_one_by_one_within_cap :
    (∀ state, Machine.Visits oneKey.step (.initial 16) insertsOneByOne state →
      total state.map ≤ 1) ∧
    (Machine.run oneKey.step (.initial 16) insertsOneByOne).any (fun state => decide
      (total state.map = 1 ∧ state.calls 2 = some ⟨"bb", .returned (.rejected 1), false⟩)) =
      true := by
  have hroomy := Machine.forall_taken_of_checks
    (show Machine.checks oneKey.step oneKey.Roomy (.initial 16) insertsOneByOne = true by
      decide)
  exact ⟨(key_cap_iff oneKey (by decide) insertsOneByOne).mpr hroomy, by decide⟩

/-- Both calls count before either inserts. -/
def overlappingInserts : List Action :=
  [.start 1 "a", .start 2 "bb"] ++ countAll 1 ++ countAll 2 ++ [.advance 1 0 0, .advance 2 0 0]

/-- Two keys are tracked where the cap is one. -/
theorem overlapping_inserts_exceed_cap : ∃ state,
    Machine.Visits oneKey.step (.initial 16) overlappingInserts state ∧
    ¬ total state.map ≤ oneKey.maxKeys := by
  have hends : (Machine.run oneKey.step (.initial 16) overlappingInserts).any (fun state =>
      decide (total state.map = 2)) = true := by
    decide
  obtain ⟨state, hrun, hends⟩ := Machine.exists_final hends
  refine ⟨state, Machine.visits_final hrun, ?_⟩
  rw [hends]
  decide

end Modo.RateLimit
