import Modo.Encoding.Digest
import Modo.Job.Queue
import Modo.Lib.Utf8

/-!
# Unique jobs

`enqueue_unique_with` inserts a row with the SHA-256 hash of its name and its
payload, which the unique index over pending and running rows refuses when such
a job exists.  The call then fetches the id of that job with a second statement,
and other statements may come in between.

* `computePayloadHash_inj`: the hash determines name and payload, because a
  serialized payload contains no NUL and the last NUL ends the name.
* `Hashed` is the invariant: every row's hash is that of its own name and
  payload, so the row that holds a slot is a job of the same name and payload.
* A call that was refused returns the id of such a job exactly when one is
  pending or running at its second statement.
-/

namespace Modo.Jobs.Unique

open DateTime (ofSecs)
open Utf8 (asBytes)

/-- `EnqueueResult`. -/
inductive EnqueueResult where
  | created (id : String)
  | duplicate (id : String)
  deriving DecidableEq

/-- What `serde_json::to_string` writes: control characters are escaped. -/
structure Payload where
  text : String
  noNul : '\x00' ∉ text.toList
  deriving DecidableEq

/-- `compute_payload_hash`; `sha256` is the hex text of the digest. -/
def computePayloadHash (sha256 : List UInt8 → String) (name payload : String) : String :=
  sha256 (asBytes name ++ 0 :: asBytes payload)

/-- The row `enqueue_unique_with` inserts. -/
def uniqueJob (sha256 : List UInt8 → String) (id name : String) (payload : Payload)
    (options : EnqueueOptions) (now : DateTime) : Job :=
  newJob id name payload.text (some (computePayloadHash sha256 name payload.text)) options now

/-- `SELECT id FROM jobs WHERE payload_hash = ?1 AND status IN ('pending', 'running') LIMIT 1`
as `query_one_map` runs it: the row with that entry in the unique index. -/
def fetchDuplicate (hash : String) (table : JobTable) : Except String String :=
  match table.find? hash with
  | some job => .ok job.id
  | none => .error "fetch duplicate job id: record not found"

/-! ## The slot of a job -/

/-- The hash determines name and payload. -/
theorem computePayloadHash_inj {sha256 : List UInt8 → String}
    (hinj : Function.Injective sha256) {name name' : String} {payload payload' : Payload} :
    computePayloadHash sha256 name payload.text = computePayloadHash sha256 name' payload'.text ↔
      name = name' ∧ payload = payload' := by
  constructor
  · intro heq
    have hnul : (0 : UInt8) ∉ asBytes payload.text :=
      Utf8.notMem_asBytes (c := '\x00') rfl (by decide) payload.noNul
    have hnul' : (0 : UInt8) ∉ asBytes payload'.text :=
      Utf8.notMem_asBytes (c := '\x00') rfl (by decide) payload'.noNul
    obtain ⟨hname, htext⟩ := Utf8.append_separator_inj hnul hnul' (hinj heq)
    refine ⟨Utf8.asBytes_injective hname, ?_⟩
    cases payload
    cases payload'
    simp only [Payload.mk.injEq]
    exact Utf8.asBytes_injective htext
  · rintro ⟨rfl, rfl⟩
    rfl

/-- Two calls compete for one slot exactly when name and payload are equal. -/
theorem uniqueJob_slot_eq {sha256 : List UInt8 → String} (hinj : Function.Injective sha256)
    {id id' name name' : String} {payload payload' : Payload} {options options' : EnqueueOptions}
    {now now' : DateTime} :
    (uniqueJob sha256 id name payload options now).slot =
        (uniqueJob sha256 id' name' payload' options' now').slot ↔
      name = name' ∧ payload = payload' := by
  rw [← computePayloadHash_inj hinj]
  simp [uniqueJob, newJob, Job.slot, Status.isTerminal]

/-! ## Runs -/

/-- A call of `enqueue_unique_with`. -/
structure Call where
  name : String
  payload : Payload
  deriving DecidableEq

/-- The queue, and the calls whose insert was refused and that have not fetched yet. -/
structure State where
  queue : Jobs.State
  waiting : List Call

/-- The empty queue. -/
def State.initial : State := ⟨Jobs.initial, []⟩

/-- A step of a run. -/
inductive Action where
  /-- A step of the queue; its own inserts are those of `enqueue_with`. -/
  | queue (action : Jobs.Action)
  /-- The insert of a call. -/
  | insert (call : Call) (id : String) (options : EnqueueOptions) (now : DateTime)
  /-- The second statement of a call whose insert was refused. -/
  | fetch (call : Call)

/-- No insert with a payload hash. -/
def isPlain : Jobs.Action → Bool
  | .enqueue _ _ _ payloadHash _ _ => payloadHash.isNone
  | .cancel .. | .claim .. | .finish .. | .crash _ | .reap .. | .cleanup .. => true

variable {sha256 : List UInt8 → String} {system : System}

/-- The insert of a call goes through. -/
def accepted (sha256 : List UInt8 → String) (state : State) (call : Call) (id : String)
    (options : EnqueueOptions) (now : DateTime) : Bool :=
  (state.queue.table.insert (uniqueJob sha256 id call.name call.payload options now)).isSome

/-- One step. -/
def step (sha256 : List UInt8 → String) (system : System) (state : State) :
    Action → Option State
  | .queue action =>
      if isPlain action then
        (Jobs.step system state.queue action).map fun queue => { state with queue := queue }
      else none
  | .insert call id options now =>
      (Jobs.step system state.queue (.enqueue id call.name call.payload.text
        (some (computePayloadHash sha256 call.name call.payload.text)) options now)).map
        fun queue => ⟨queue, if accepted sha256 state call id options now then state.waiting
            else call :: state.waiting⟩
  | .fetch call =>
      if call ∈ state.waiting then some { state with waiting := state.waiting.erase call }
      else none

/-- What a call returns when one of its steps ends it. -/
def returned (sha256 : List UInt8 → String) (state : State) :
    Action → Option (Except String EnqueueResult)
  | .queue _ => none
  | .insert call id options now =>
      if accepted sha256 state call id options now then some (.ok (.created id)) else none
  | .fetch call =>
      some ((fetchDuplicate (computePayloadHash sha256 call.name call.payload.text)
        state.queue.table).map .duplicate)

/-- One step of a run. -/
abbrev Taken (sha256 : List UInt8 → String) (system : System) :
    List Action → State → Action → State → Prop :=
  Machine.Taken (step sha256 system) State.initial

/-- A job of the call's name and payload that was enqueued as unique is pending
or running. -/
def Occupied (call : Call) (table : JobTable) : Prop :=
  ∃ job ∈ table.rows, job.payloadHash.isSome ∧ (job.status = .pending ∨ job.status = .running) ∧
    job.name = call.name ∧ job.payload = call.payload.text

instance (call : Call) (table : JobTable) : Decidable (Occupied call table) :=
  inferInstanceAs (Decidable (∃ job ∈ table.rows, job.payloadHash.isSome ∧
    (job.status = .pending ∨ job.status = .running) ∧ job.name = call.name ∧
      job.payload = call.payload.text))

/-! ## The invariant -/

/-- The hash of a row is that of its name and its payload. -/
def Job.Hashed (sha256 : List UInt8 → String) (job : Job) : Prop :=
  ∀ hash, job.payloadHash = some hash → ∃ payload : Payload, job.payload = payload.text ∧
    hash = computePayloadHash sha256 job.name payload.text

/-- Every row is hashed. -/
def Hashed (sha256 : List UInt8 → String) (table : JobTable) : Prop :=
  ∀ id job, table.get? id = some job → Job.Hashed sha256 job

/-- A step of the queue changes no name, payload or hash. -/
theorem hashed_of_rowStep {state : Jobs.State} {id : String} {action : Jobs.Action}
    {before : Option Job} {after : Job}
    (hrow : RowStep system state id action before (some after))
    (hbefore : ∀ job, before = some job → Job.Hashed sha256 job)
    (hinsert : ∀ name payload hash options now,
      action = .enqueue id name payload (some hash) options now →
        ∃ serialized : Payload, payload = serialized.text ∧
          hash = computePayloadHash sha256 name serialized.text) :
    Job.Hashed sha256 after := by
  cases hrow with
  | insert name payload payloadHash options now hfresh =>
      intro hash hhash
      have hsome : payloadHash = some hash := hhash
      exact hinsert name payload hash options now (by rw [hsome])
  | same => exact hbefore _ rfl
  | cancel job => exact hbefore job rfl
  | claim worker queue slots permits now chosen job => exact hbefore job rfl
  | complete execution now later job => exact hbefore job rfl
  | die execution outcome message now later job => exact hbefore job rfl
  | retry execution outcome message retryAt now later job => exact hbefore job rfl
  | reap worker now later job => exact hbefore job rfl

theorem step_hashed {state next : State} {action : Action}
    (hhashed : Hashed sha256 state.queue.table)
    (hstep : step sha256 system state action = some next) :
    Hashed sha256 next.queue.table := by
  intro id job hget
  cases action with
  | queue action =>
      simp only [step, Option.ite_none_right_eq_some, Option.map_eq_some_iff] at hstep
      obtain ⟨hplain, queue, hqueue, rfl⟩ := hstep
      have hrow := step_rowStep hqueue id
      rw [hget] at hrow
      refine hashed_of_rowStep hrow (hhashed id) ?_
      rintro name payload hash options now rfl
      cases hplain
  | insert call newId options now =>
      simp only [step, Option.map_eq_some_iff] at hstep
      obtain ⟨queue, hqueue, rfl⟩ := hstep
      have hrow := step_rowStep hqueue id
      rw [hget] at hrow
      refine hashed_of_rowStep hrow (hhashed id) ?_
      intro name payload hash options' now' heq
      simp only [Jobs.Action.enqueue.injEq, Option.some.injEq] at heq
      obtain ⟨-, rfl, rfl, rfl, -, -⟩ := heq
      exact ⟨call.payload, rfl, rfl⟩
  | fetch call =>
      simp only [step, Option.ite_none_right_eq_some, Option.some.injEq] at hstep
      obtain ⟨-, rfl⟩ := hstep
      exact hhashed id job hget

theorem step_queue_recorded {state next : State} {action : Action}
    (hrecorded : Recorded state.queue) (hstep : step sha256 system state action = some next) :
    Recorded next.queue := by
  cases action with
  | queue action =>
      simp only [step, Option.ite_none_right_eq_some, Option.map_eq_some_iff] at hstep
      obtain ⟨-, queue, hqueue, rfl⟩ := hstep
      exact step_recorded hrecorded hqueue
  | insert call id options now =>
      simp only [step, Option.map_eq_some_iff] at hstep
      obtain ⟨queue, hqueue, rfl⟩ := hstep
      exact step_recorded hrecorded hqueue
  | fetch call =>
      simp only [step, Option.ite_none_right_eq_some, Option.some.injEq] at hstep
      obtain ⟨-, rfl⟩ := hstep
      exact hrecorded

/-- Every reachable state is hashed and recorded. -/
theorem run_hashed {actions : List Action} {state : State}
    (hrun : Machine.run (step sha256 system) State.initial actions = some state) :
    Hashed sha256 state.queue.table ∧ Recorded state.queue := by
  refine Machine.run_invariant
    (fun state => Hashed sha256 state.queue.table ∧ Recorded state.queue) ?_ ?_ hrun
  · rintro before action after ⟨hhashed, hrecorded⟩ hstep
    exact ⟨step_hashed hhashed hstep, step_queue_recorded hrecorded hstep⟩
  · refine ⟨?_, recorded_initial⟩
    intro id job hget
    simp [State.initial, initial] at hget

/-! ## What a call returns -/

theorem slot_eq_some {job : Job} {hash : String} :
    job.slot = some hash ↔
      (job.status = .pending ∨ job.status = .running) ∧ job.payloadHash = some hash := by
  unfold Job.slot
  cases job.status <;> simp [Status.isTerminal]

/-- The row that holds a call's slot is a job of its name and payload. -/
theorem occupied_of_slot (hinj : Function.Injective sha256) {table : JobTable}
    (hhashed : Hashed sha256 table) {call : Call} {job : Job} (hjob : job ∈ table.rows)
    (hslot : job.slot = some (computePayloadHash sha256 call.name call.payload.text)) :
    job.payloadHash.isSome ∧ (job.status = .pending ∨ job.status = .running) ∧
      job.name = call.name ∧ job.payload = call.payload.text := by
  obtain ⟨hstatus, hhash⟩ := slot_eq_some.mp hslot
  have hget : table.get? job.id = some job := Table.get?_eq_some.mpr ⟨hjob, rfl⟩
  obtain ⟨payload, hpayload, heq⟩ := hhashed job.id job hget _ hhash
  obtain ⟨hname, hsame⟩ := (computePayloadHash_inj hinj).mp heq
  exact ⟨by rw [hhash]; rfl, hstatus, hname.symm, by rw [hpayload, hsame]⟩

/-- A job of the call's name and payload holds the call's slot. -/
theorem slot_of_occupied {table : JobTable}
    (hhashed : Hashed sha256 table) {call : Call} (hoccupied : Occupied call table) :
    ∃ job ∈ table.rows,
      job.slot = some (computePayloadHash sha256 call.name call.payload.text) := by
  obtain ⟨job, hjob, hunique, hstatus, hname, hpayload⟩ := hoccupied
  obtain ⟨hash, hhash⟩ := Option.isSome_iff_exists.mp hunique
  have hget : table.get? job.id = some job := Table.get?_eq_some.mpr ⟨hjob, rfl⟩
  obtain ⟨payload, htext, heq⟩ := hhashed job.id job hget hash hhash
  refine ⟨job, hjob, slot_eq_some.mpr ⟨hstatus, ?_⟩⟩
  rw [hhash, heq, hname, ← hpayload, htext]

/-- The insert of a call: it is accepted, or a job of its name and payload is
pending or running. -/
theorem insert_spec (hinj : Function.Injective sha256) {state next : State} {call : Call}
    {id : String} {options : EnqueueOptions} {now : DateTime}
    (hhashed : Hashed sha256 state.queue.table) (hrecorded : Recorded state.queue)
    (hstep : step sha256 system state (.insert call id options now) = some next) :
    (accepted sha256 state call id options now = true ∧
      next.queue.table.get? id =
        some (uniqueJob sha256 id call.name call.payload options now)) ∨
    (accepted sha256 state call id options now = false ∧ call ∈ next.waiting ∧
      Occupied call state.queue.table) := by
  simp only [step, Option.map_eq_some_iff] at hstep
  obtain ⟨queue, hqueue, rfl⟩ := hstep
  simp only [Jobs.step] at hqueue
  split at hqueue
  · cases hqueue
  rename_i hfresh
  split at hqueue
  · rename_i hrefused
    have haccepted : accepted sha256 state call id options now = false := by
      rw [accepted, uniqueJob, hrefused]
      rfl
    refine Or.inr ⟨haccepted, by simp [haccepted], ?_⟩
    rcases Table.taken_of_insert_eq_none hrefused with
      ⟨job, hjob, hid⟩ | ⟨entry, hentry, job, hjob, hslot⟩
    · -- the id is fresh
      have hget : state.queue.table.get? id = some job := Table.get?_eq_some.mpr ⟨hjob, hid⟩
      exact absurd (hrecorded.table id job hget) hfresh
    · have hcall : some (computePayloadHash sha256 call.name call.payload.text) = some entry :=
        hentry
      exact ⟨job, hjob, occupied_of_slot hinj hhashed hjob (hslot.trans hcall.symm)⟩
  · rename_i table hinsert
    rw [Option.some.injEq] at hqueue
    subst hqueue
    refine Or.inl ⟨?_, ?_⟩
    · rw [accepted, uniqueJob, hinsert]
      rfl
    · rw [Table.get?_insert hinsert]
      exact if_pos rfl

/-- The second statement finds the slot's row when there is one. -/
theorem fetchDuplicate_spec (hinj : Function.Injective sha256) {table : JobTable}
    (hhashed : Hashed sha256 table) (call : Call) :
    (∃ job ∈ table.rows,
      fetchDuplicate (computePayloadHash sha256 call.name call.payload.text) table = .ok job.id ∧
      job.payloadHash.isSome ∧ (job.status = .pending ∨ job.status = .running) ∧
      job.name = call.name ∧ job.payload = call.payload.text) ∨
    (¬ Occupied call table ∧
      fetchDuplicate (computePayloadHash sha256 call.name call.payload.text) table =
        .error "fetch duplicate job id: record not found") := by
  unfold fetchDuplicate
  cases hfind : table.find? (computePayloadHash sha256 call.name call.payload.text) with
  | some job =>
      left
      obtain ⟨hjob, hslot⟩ := Table.find?_eq_some.mp hfind
      exact ⟨job, hjob, rfl, occupied_of_slot hinj hhashed hjob hslot⟩
  | none =>
      right
      refine ⟨?_, rfl⟩
      intro hoccupied
      obtain ⟨job, hjob, hslot⟩ := slot_of_occupied hhashed hoccupied
      rw [Table.find?_eq_some.mpr ⟨hjob, hslot⟩] at hfind
      cases hfind

/-- **Unique enqueueing**: calls compete for a slot exactly when name and
payload agree; an insert that is accepted stores the row whose id the call
returns, and one that is refused found such a job pending or running; and the
second statement of a refused call returns the id of such a job, pending or
running at that moment, exactly when there is one. -/
theorem enqueue_unique_outcome (hinj : Function.Injective sha256) (system : System) :
    (∀ (id id' name name' : String) (payload payload' : Payload)
      (options options' : EnqueueOptions) (now now' : DateTime),
      (uniqueJob sha256 id name payload options now).slot =
          (uniqueJob sha256 id' name' payload' options' now').slot ↔
        name = name' ∧ payload = payload') ∧
    (∀ actions before call id options now after,
      Taken sha256 system actions before (.insert call id options now) after →
      (returned sha256 before (.insert call id options now) = some (.ok (.created id)) ∧
        after.queue.table.get? id =
          some (uniqueJob sha256 id call.name call.payload options now)) ∨
      (returned sha256 before (.insert call id options now) = none ∧ call ∈ after.waiting ∧
        Occupied call before.queue.table)) ∧
    (∀ actions before call after, Taken sha256 system actions before (.fetch call) after →
      ((∃ id job, returned sha256 before (.fetch call) = some (.ok (.duplicate id)) ∧
          before.queue.table.get? id = some job ∧
          (job.status = .pending ∨ job.status = .running) ∧ job.name = call.name ∧
          job.payload = call.payload.text) ↔
        Occupied call before.queue.table) ∧
      (¬ Occupied call before.queue.table →
        returned sha256 before (.fetch call) =
          some (.error "fetch duplicate job id: record not found"))) := by
  refine ⟨fun _ _ _ _ _ _ _ _ _ _ => uniqueJob_slot_eq hinj, ?_, ?_⟩
  · rintro actions before call id options now after ⟨first, rest, rfl, hrun, hstep⟩
    -- slots are compared by the hashes that are stored
    obtain ⟨hhashed, hrecorded⟩ := run_hashed hrun
    simp only [returned]
    rcases insert_spec hinj hhashed hrecorded hstep with ⟨haccepted, hget⟩ | ⟨hrefused, hwaits⟩
    · exact Or.inl ⟨if_pos haccepted, hget⟩
    · exact Or.inr ⟨if_neg (by simp [hrefused]), hwaits⟩
  · rintro actions before call after ⟨first, rest, rfl, hrun, -⟩
    have hhashed := (run_hashed hrun).1
    simp only [returned]
    rcases fetchDuplicate_spec hinj hhashed call with
      ⟨job, hjob, hfetch, hunique, hmatch⟩ | ⟨hfree, hfetch⟩
    · have hoccupied : Occupied call before.queue.table := ⟨job, hjob, hunique, hmatch⟩
      refine ⟨iff_of_true ⟨job.id, job, ?_, Table.get?_eq_some.mpr ⟨hjob, rfl⟩, hmatch⟩ hoccupied,
        fun hfree => absurd hoccupied hfree⟩
      rw [hfetch]
      rfl
    · rw [hfetch]
      refine ⟨iff_of_false ?_ hfree, fun _ => rfl⟩
      rintro ⟨id, job, hreturned, -⟩
      cases hreturned

/-! ## Runs on fixed inputs -/

/-- One worker without handlers. -/
def sampleSystem : System := ⟨true, fun _ => [], fun _ => 600, fun _ => 259200⟩

/-- SHA-256 on the bytes that are hashed below. -/
def sampleSha256 : List UInt8 → String :=
  digestWith [(asBytes "email" ++ 0 :: asBytes "null",
    "b9ac6e8a26475cf4db06a59d17620a3662d7301bb5eeedf435b8b700e9a13eba")]

theorem sampleSha256_inj : Function.Injective sampleSha256 :=
  digestWith_injective ⟨by decide, by decide⟩

/-- A call with an empty payload. -/
def emailCall : Call := ⟨"email", ⟨"null", by decide⟩⟩

/-- Two calls with the same name and payload; the second one is refused. -/
def twoCalls : List Action :=
  [.insert emailCall "01A" {} (ofSecs 1767225600),
    .insert emailCall "01B" {} (ofSecs 1767225601)]

/-- The first job is cancelled before the second call fetches its id, and the
call fails. -/
theorem cancelled_duplicate_not_found :
    ∃ before after,
      Taken sampleSha256 sampleSystem
        (twoCalls ++ [.queue (.cancel "01A" (ofSecs 1767225602)), .fetch emailCall])
        before (.fetch emailCall) after ∧
      returned sampleSha256 before (.fetch emailCall) =
        some (.error "fetch duplicate job id: record not found") := by
  have hany : (Machine.run (step sampleSha256 sampleSystem) State.initial
      (twoCalls ++ [.queue (.cancel "01A" (ofSecs 1767225602))])).any (fun state =>
        decide (emailCall ∈ state.waiting ∧ returned sampleSha256 state (.fetch emailCall) =
          some (.error "fetch duplicate job id: record not found"))) = true := by
    decide
  obtain ⟨state, hrun, hwaiting, hreturned⟩ := Machine.exists_final hany
  exact ⟨state, _, ⟨_, [], rfl, hrun, if_pos hwaiting⟩, hreturned⟩

/-- While the first job is pending, the second call returns its id. -/
theorem pending_duplicate_found :
    ∃ before after,
      Taken sampleSha256 sampleSystem (twoCalls ++ [.fetch emailCall]) before
        (.fetch emailCall) after ∧
      ∃ id job, returned sampleSha256 before (.fetch emailCall) = some (.ok (.duplicate id)) ∧
        before.queue.table.get? id = some job ∧
        (job.status = .pending ∨ job.status = .running) ∧ job.name = "email" ∧
        job.payload = "null" := by
  have hany : (Machine.run (step sampleSha256 sampleSystem) State.initial twoCalls).any
      (fun state => decide (emailCall ∈ state.waiting ∧ Occupied emailCall state.queue.table)) =
        true := by
    decide
  obtain ⟨state, hrun, hwaiting, hoccupied⟩ := Machine.exists_final hany
  have htaken : Taken sampleSha256 sampleSystem (twoCalls ++ [.fetch emailCall]) state
      (.fetch emailCall) { state with waiting := state.waiting.erase emailCall } :=
    ⟨twoCalls, [], rfl, hrun, if_pos hwaiting⟩
  exact ⟨state, _, htaken,
    ((enqueue_unique_outcome sampleSha256_inj sampleSystem).2.2 _ state emailCall _ htaken).1.mpr
      hoccupied⟩

end Modo.Jobs.Unique
