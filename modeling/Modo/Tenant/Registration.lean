import Modo.Tenant.Domain

/-!
# Is registration idempotent?

`register` returns a pending claim of the tenant and domain instead of making
another.  Its `SELECT … LIMIT 1` asks for a pending row, and whether the row has
expired is found out afterwards: an expired row stays pending in the table, and
`LIMIT 1` may return it although an unexpired one is stored as well
(`expired_row_hides_claim`).  And between the `SELECT` and the `INSERT` other calls
run, which may insert a claim of the same tenant and domain.

A run interleaves the statements of any number of `register` calls with the other
statements of the service, from any stored claims and with a clock that does not go
back.  Reading the clock after the `SELECT` belongs to the same step.  A call keeps
the ids of the claims for its tenant and domain that were inserted since its
`SELECT` (`missed`).  Registration is idempotent along a run exactly when the
`SELECT`s and `INSERT`s of the run are `Undisturbed` (`registration_idempotent_iff`).
-/

namespace Modo.Tenants.Registration

open DateTime (ofSecs)

/-! ## The statements -/

/-- `into_claim_with_expiry`. -/
def intoClaimWithExpiry (now : DateTime) (row : DomainClaim) : DomainClaim :=
  if row.status = .pending ∧ isExpired row.createdAt now = true then { row with status := .failed }
  else row

/-- `tenant_id = ?1 AND domain = ?2 AND status = 'pending'`. -/
def pendingFor (tenantId domain : String) (row : DomainClaim) : Bool :=
  decide (row.tenantId = tenantId ∧ row.domain = domain ∧ row.status = .pending)

/-- `chosen` is a possible answer of the `SELECT … LIMIT 1` of `register`. -/
def isAnswer (tenantId domain : String) (chosen : Option DomainClaim) (table : DomainTable) :
    Bool :=
  match chosen with
  | none => !table.rows.any (pendingFor tenantId domain)
  | some row => decide (row ∈ table.rows) && pendingFor tenantId domain row

/-- The claim `register` returns when the `SELECT` answers `chosen`; otherwise it goes
on to insert one. -/
def existing (now : DateTime) (chosen : Option DomainClaim) : Option DomainClaim :=
  (chosen.map (intoClaimWithExpiry now)).filter fun claim => decide (claim.status = .pending)

/-- The statements of the other operations that write. -/
inductive Statement where
  | markFailed (id : String)
  | markVerified (id : String) (now : DateTime)
  | remove (id : String)
  | enable (capability : Capability) (id : String)
  | disable (capability : Capability) (id : String)

def execute : Statement → DomainTable → DomainTable
  | .markFailed id => markFailed id
  | .markVerified id now => markVerified id now
  | .remove id => remove id
  | .enable capability id => enable capability id
  | .disable capability id => disable capability id

/-! ## Runs -/

/-- A call of `register` that goes on to insert: when its `SELECT` was answered, and
the ids of the claims of its tenant and domain that were inserted since. -/
structure Call where
  tenantId : String
  domain : String
  since : DateTime
  missed : List String
  deriving DecidableEq

structure State where
  table : DomainTable
  clock : DateTime
  calls : List Call

inductive Action where
  | tick (now : DateTime)
  /-- The `SELECT` of `register`, and the test of the row it returns. -/
  | select (tenantId domain : String) (chosen : Option DomainClaim)
  /-- The `INSERT` of `register`, with the id, token and time made before it. -/
  | insert (call : Call) (id token : String) (now : DateTime)
  | statement (statement : Statement)

/-- A claim that was inserted is noted by the open calls for its tenant and domain. -/
def Call.note (claim : DomainClaim) (call : Call) : Call :=
  if call.tenantId = claim.tenantId ∧ call.domain = claim.domain then
    { call with missed := claim.id :: call.missed }
  else call

def step (state : State) : Action → Option State
  | .tick now => if state.clock ≤ now then some { state with clock := now } else none
  | .select tenantId domain chosen =>
      if isAnswer tenantId domain chosen state.table then
        match existing state.clock chosen with
        | some _ => some state
        | none =>
            some { state with calls := ⟨tenantId, domain, state.clock, []⟩ :: state.calls }
      else none
  | .insert call id token now =>
      if call ∈ state.calls ∧ call.since ≤ now ∧ now ≤ state.clock then
        let claim := newClaim id call.tenantId call.domain token now
        let calls := state.calls.erase call
        match state.table.insert claim with
        | none => some { state with calls := calls }
        | some table => some { state with table := table, calls := calls.map (Call.note claim) }
      else none
  | .statement statement => some { state with table := execute statement state.table }

/-! ## Unexpired pending claims -/

/-- The claim is pending and has not expired. -/
def IsOpen (now : DateTime) (claim : DomainClaim) : Prop :=
  claim.status = .pending ∧ isExpired claim.createdAt now = false

instance (now : DateTime) (claim : DomainClaim) : Decidable (IsOpen now claim) :=
  inferInstanceAs (Decidable (_ ∧ _))

/-- The stored claims for a tenant and domain that are open. -/
def openClaims (tenantId domain : String) (now : DateTime) (table : DomainTable) :
    List DomainClaim :=
  table.rows.filter fun claim =>
    decide (claim.tenantId = tenantId ∧ claim.domain = domain ∧ IsOpen now claim)

/-- No two open claims are for the same tenant and domain. -/
def AtMostOne (state : State) : Prop :=
  ∀ tenantId domain, ∀ claim ∈ openClaims tenantId domain state.clock state.table,
    ∀ other ∈ openClaims tenantId domain state.clock state.table, claim = other

/-- What idempotence asks of a step: with an open claim stored, the `SELECT` leads to
it and no `INSERT` is made. -/
def Returns (state : State) : Action → Prop
  | .select tenantId domain chosen =>
      ∀ claim ∈ openClaims tenantId domain state.clock state.table,
        existing state.clock chosen = some claim
  | .insert call _ _ _ => openClaims call.tenantId call.domain state.clock state.table = []
  | _ => True

/-- The `SELECT` does not return an expired row while an open claim is stored, and
no claim that the call missed is open when it inserts. -/
def Undisturbed (state : State) : Action → Prop
  | .select tenantId domain chosen =>
      openClaims tenantId domain state.clock state.table ≠ [] →
        ∀ row ∈ chosen, isExpired row.createdAt state.clock = false
  | .insert call _ _ _ =>
      ∀ claim ∈ openClaims call.tenantId call.domain state.clock state.table,
        claim.id ∉ call.missed
  | _ => True

instance (state : State) : (action : Action) → Decidable (Undisturbed state action)
  | .select tenantId domain chosen => inferInstanceAs (Decidable
      (openClaims tenantId domain state.clock state.table ≠ [] →
        ∀ row ∈ chosen, isExpired row.createdAt state.clock = false))
  | .insert call _ _ _ => inferInstanceAs (Decidable
      (∀ claim ∈ openClaims call.tenantId call.domain state.clock state.table,
        claim.id ∉ call.missed))
  | .tick _ | .statement _ => .isTrue trivial

theorem mem_openClaims {tenantId domain : String} {now : DateTime} {table : DomainTable}
    {claim : DomainClaim} :
    claim ∈ openClaims tenantId domain now table ↔
      claim ∈ table.rows ∧ claim.tenantId = tenantId ∧ claim.domain = domain ∧
        IsOpen now claim := by
  simp [openClaims]

/-! ## The answer of the `SELECT` -/

section Select

variable {tenantId domain : String} {chosen : Option DomainClaim} {table : DomainTable}
  {now : DateTime}

theorem isAnswer_some_iff {row : DomainClaim} :
    isAnswer tenantId domain (some row) table = true ↔
      row ∈ table.rows ∧ row.tenantId = tenantId ∧ row.domain = domain ∧
        row.status = .pending := by
  simp [isAnswer, pendingFor]

/-- A pending row is returned as it is, unless it has expired. -/
theorem existing_some_of_pending {row : DomainClaim} (hpending : row.status = .pending) :
    existing now (some row) = if isExpired row.createdAt now then none else some row := by
  cases hexpired : isExpired row.createdAt now with
  | true => simp [existing, intoClaimWithExpiry, hpending, hexpired]
  | false => simp [existing, intoClaimWithExpiry, hpending, hexpired]

/-- The first pending row is one of the possible answers. -/
theorem existingClaim_eq_existing (tenantId domain : String) (now : DateTime)
    (table : DomainTable) : ∃ chosen, isAnswer tenantId domain chosen table = true ∧
      existing now chosen = existingClaim tenantId domain now table := by
  refine ⟨table.rows.find? (pendingFor tenantId domain), ?_, ?_⟩
  · cases hfind : table.rows.find? (pendingFor tenantId domain) with
    | none =>
        rw [List.find?_eq_none] at hfind
        simpa [isAnswer] using hfind
    | some row =>
        have hrow := List.mem_of_find?_eq_some hfind
        have hpending := List.find?_some hfind
        simp [isAnswer, hrow, hpending]
  · have hsame : existingClaim tenantId domain now table =
        (table.rows.find? (pendingFor tenantId domain)).filter
          fun claim => !isExpired claim.createdAt now := rfl
    rw [hsame]
    cases hfind : table.rows.find? (pendingFor tenantId domain) with
    | none => rfl
    | some row =>
        have hpending : row.status = .pending := by
          have hpending := List.find?_some hfind
          rw [pendingFor, decide_eq_true_eq] at hpending
          exact hpending.2.2
        rw [existing_some_of_pending hpending]
        cases hexpired : isExpired row.createdAt now with
        | true => simp [Option.filter, hexpired]
        | false => simp [Option.filter, hexpired]

/-- With an open claim stored and an answer that has not expired, that answer is
returned, and it is open. -/
theorem existing_of_undisturbed (hanswer : isAnswer tenantId domain chosen table = true)
    (hstored : openClaims tenantId domain now table ≠ [])
    (hfresh : ∀ row ∈ chosen, isExpired row.createdAt now = false) :
    ∃ row ∈ openClaims tenantId domain now table, existing now chosen = some row := by
  cases chosen with
  | none =>
      exfalso
      obtain ⟨claim, hclaim⟩ := List.exists_mem_of_ne_nil _ hstored
      obtain ⟨hmem, htenant, hdomain, hpending, -⟩ := mem_openClaims.mp hclaim
      have hnone : table.rows.any (pendingFor tenantId domain) = false := by
        simpa only [isAnswer, Bool.not_eq_true'] using hanswer
      rw [List.any_eq_false] at hnone
      exact hnone claim hmem (decide_eq_true ⟨htenant, hdomain, hpending⟩)
  | some row =>
      obtain ⟨hmem, htenant, hdomain, hpending⟩ := isAnswer_some_iff.mp hanswer
      have hnot := hfresh row rfl
      refine ⟨row, mem_openClaims.mpr ⟨hmem, htenant, hdomain, hpending, hnot⟩, ?_⟩
      rw [existing_some_of_pending hpending, hnot, if_neg Bool.false_ne_true]

end Select

/-! ## Open claims only become fewer -/

theorem isExpired_mono {createdAt now later : DateTime} (hle : now ≤ later)
    (hexpired : isExpired createdAt now = true) : isExpired createdAt later = true := by
  rw [isExpired, decide_eq_true_eq] at hexpired ⊢
  exact lt_of_lt_of_le hexpired hle

theorem IsOpen.of_le {claim : DomainClaim} {now later : DateTime} (hle : now ≤ later)
    (hopen : IsOpen later claim) : IsOpen now claim := by
  refine ⟨hopen.1, ?_⟩
  by_contra hexpired
  rw [Bool.not_eq_false] at hexpired
  exact absurd (isExpired_mono hle hexpired) (by simp [hopen.2])

/-- The open claims of `next` were open in `state`. -/
def Fewer (state next : State) : Prop :=
  ∀ tenantId domain, ∀ claim ∈ openClaims tenantId domain next.clock next.table,
    ∃ old ∈ openClaims tenantId domain state.clock state.table, old.id = claim.id

theorem AtMostOne.fewer {state next : State} (hone : AtMostOne state)
    (hfewer : Fewer state next) : AtMostOne next := by
  intro tenantId domain claim hclaim other hother
  obtain ⟨old, hold, hid⟩ := hfewer tenantId domain claim hclaim
  obtain ⟨old', hold', hid'⟩ := hfewer tenantId domain other hother
  have hsame : old = old' := hone tenantId domain old hold old' hold'
  apply next.table.key_inj (mem_openClaims.mp hclaim).1 (mem_openClaims.mp hother).1
  rw [← hid, ← hid', hsame]

theorem fewer_tick {state : State} {now : DateTime} (hle : state.clock ≤ now) :
    Fewer state { state with clock := now } := by
  intro tenantId domain claim hclaim
  obtain ⟨hmem, htenant, hdomain, hopen⟩ := mem_openClaims.mp hclaim
  exact ⟨claim, mem_openClaims.mpr ⟨hmem, htenant, hdomain, hopen.of_le hle⟩, rfl⟩

/-- An update of one claim that makes nothing pending. -/
theorem fewer_update {state : State} {table : DomainTable} {id : String}
    {f : DomainClaim → DomainClaim}
    (hget : ∀ k, table.get? k =
      if k = id then (state.table.get? k).map f else state.table.get? k)
    (hkeep : ∀ old, (f old).status = .pending → old.id = (f old).id ∧
      old.tenantId = (f old).tenantId ∧ old.domain = (f old).domain ∧
      old.createdAt = (f old).createdAt ∧ old.status = .pending) :
    Fewer state { state with table := table } := by
  intro tenantId domain claim hclaim
  obtain ⟨hmem, rfl, rfl, hpending, hfresh⟩ := mem_openClaims.mp hclaim
  have hclaim : table.get? claim.id = some claim := Table.get?_eq_some.mpr ⟨hmem, rfl⟩
  rw [hget] at hclaim
  by_cases hid : claim.id = id
  · rw [if_pos hid] at hclaim
    obtain ⟨old, hold, rfl⟩ := Option.map_eq_some_iff.mp hclaim
    obtain ⟨hsame, htenant, hdomain, hcreated, hwas⟩ := hkeep old hpending
    refine ⟨old, mem_openClaims.mpr ⟨Table.mem_of_get? hold, htenant, hdomain, hwas, ?_⟩, hsame⟩
    rw [hcreated]
    exact hfresh
  · rw [if_neg hid] at hclaim
    exact ⟨claim, mem_openClaims.mpr
      ⟨Table.mem_of_get? hclaim, rfl, rfl, hpending, hfresh⟩, rfl⟩

theorem keep_setUse (value : Bool) (capability : Capability) (old : DomainClaim)
    (hpending : (old.setUse value capability).status = .pending) :
    old.id = (old.setUse value capability).id ∧
      old.tenantId = (old.setUse value capability).tenantId ∧
      old.domain = (old.setUse value capability).domain ∧
      old.createdAt = (old.setUse value capability).createdAt ∧ old.status = .pending := by
  cases capability with
  | email => exact ⟨rfl, rfl, rfl, rfl, hpending⟩
  | routing => exact ⟨rfl, rfl, rfl, rfl, hpending⟩

theorem fewer_execute (state : State) (statement : Statement) :
    Fewer state { state with table := execute statement state.table } := by
  cases statement with
  | markFailed id =>
      exact fewer_update (get?_updateClaim id DomainClaim.setFailed (fun _ => rfl) _)
        (fun _ hpending => by cases hpending)
  | markVerified id now =>
      exact fewer_update (get?_updateClaim id (DomainClaim.setVerified now) (fun _ => rfl) _)
        (fun _ hpending => by cases hpending)
  | enable capability id =>
      exact fewer_update (get?_enable capability id _) (keep_setUse true capability)
  | disable capability id =>
      exact fewer_update (get?_disable capability id _) (keep_setUse false capability)
  | remove id =>
      intro tenantId domain claim hclaim
      obtain ⟨hmem, hrest⟩ := mem_openClaims.mp hclaim
      have hbefore : claim ∈ state.table.rows := (List.mem_filter.mp hmem).1
      exact ⟨claim, mem_openClaims.mpr ⟨hbefore, hrest⟩, rfl⟩

/-! ## The invariant -/

/-- No two claims are open for a tenant and domain, and the claims that are open for
those of a call about to insert were inserted since its `SELECT`. -/
structure Noted (state : State) : Prop where
  one : AtMostOne state
  missed : ∀ call ∈ state.calls,
    ∀ claim ∈ openClaims call.tenantId call.domain state.clock state.table,
      claim.id ∈ call.missed

theorem Noted.fewer {state next : State} (hnoted : Noted state) (hfewer : Fewer state next)
    (hcalls : next.calls = state.calls) : Noted next := by
  refine ⟨hnoted.one.fewer hfewer, ?_⟩
  intro call hcall claim hclaim
  rw [hcalls] at hcall
  obtain ⟨old, hold, hid⟩ := hfewer call.tenantId call.domain claim hclaim
  exact hid ▸ hnoted.missed call hcall old hold

theorem Noted.dropCalls {state : State} (hnoted : Noted state) {calls : List Call}
    (hsub : ∀ call ∈ calls, call ∈ state.calls) : Noted { state with calls := calls } :=
  ⟨hnoted.one, fun call hcall => hnoted.missed call (hsub call hcall)⟩

/-- The open claims after an insert. -/
theorem mem_openClaims_insert {table table' : DomainTable} {claim found : DomainClaim}
    (hinsert : table.insert claim = some table') {tenantId domain : String} {now : DateTime}
    (hfound : found ∈ openClaims tenantId domain now table') :
    found ∈ openClaims tenantId domain now table ∨
      found = claim ∧ claim.tenantId = tenantId ∧ claim.domain = domain := by
  obtain ⟨hmem, htenant, hdomain, hopen⟩ := mem_openClaims.mp hfound
  rw [Table.rows_insert hinsert, List.mem_append, List.mem_singleton] at hmem
  rcases hmem with hbefore | rfl
  · exact Or.inl (mem_openClaims.mpr ⟨hbefore, htenant, hdomain, hopen⟩)
  · exact Or.inr ⟨rfl, htenant, hdomain⟩

@[simp] theorem note_tenantId (claim : DomainClaim) (call : Call) :
    (call.note claim).tenantId = call.tenantId := by
  unfold Call.note
  split <;> rfl

@[simp] theorem note_domain (claim : DomainClaim) (call : Call) :
    (call.note claim).domain = call.domain := by
  unfold Call.note
  split <;> rfl

theorem mem_note_missed {claim : DomainClaim} {call : Call} {id : String} :
    id ∈ (call.note claim).missed ↔ id ∈ call.missed ∨
      id = claim.id ∧ call.tenantId = claim.tenantId ∧ call.domain = claim.domain := by
  unfold Call.note
  split
  · rename_i hpair
    simp [hpair, or_comm]
  · rename_i hpair
    simp [hpair]

/-- An insert while no claim of the tenant and domain is open. -/
theorem noted_insert {state : State} (hnoted : Noted state) {claim : DomainClaim}
    {table : DomainTable} {calls : List Call} (hsub : ∀ call ∈ calls, call ∈ state.calls)
    (hnone : openClaims claim.tenantId claim.domain state.clock state.table = [])
    (hinsert : state.table.insert claim = some table) :
    Noted { state with table := table, calls := calls.map (Call.note claim) } := by
  constructor
  · intro tenantId domain first hfirst second hsecond
    rcases mem_openClaims_insert hinsert hfirst with hold | ⟨rfl, rfl, rfl⟩
    · rcases mem_openClaims_insert hinsert hsecond with hold' | ⟨rfl, rfl, rfl⟩
      · exact hnoted.one tenantId domain first hold second hold'
      · simp [hnone] at hold
    · rcases mem_openClaims_insert hinsert hsecond with hold' | ⟨rfl, -, -⟩
      · simp [hnone] at hold'
      · rfl
  · intro noted hmem found hfound
    obtain ⟨call, hcall, rfl⟩ := List.mem_map.mp hmem
    rw [note_tenantId, note_domain] at hfound
    rw [mem_note_missed]
    rcases mem_openClaims_insert hinsert hfound with hold | ⟨rfl, htenant, hdomain⟩
    · exact Or.inl (hnoted.missed call (hsub call hcall) found hold)
    · exact Or.inr ⟨rfl, htenant.symm, hdomain.symm⟩

/-- A call that has missed no open claim finds none when it inserts. -/
theorem Noted.openClaims_eq_nil {state : State} (hnoted : Noted state) {call : Call}
    (hcall : call ∈ state.calls)
    (hundisturbed : ∀ claim ∈ openClaims call.tenantId call.domain state.clock state.table,
      claim.id ∉ call.missed) :
    openClaims call.tenantId call.domain state.clock state.table = [] := by
  rw [List.eq_nil_iff_forall_not_mem]
  intro claim hclaim
  exact hundisturbed claim hclaim (hnoted.missed call hcall claim hclaim)

theorem step_noted {state next : State} {action : Action} (hnoted : Noted state)
    (hundisturbed : Undisturbed state action) (hstep : step state action = some next) :
    Noted next := by
  cases action with
  | tick now =>
      simp only [step, Option.ite_none_right_eq_some, Option.some.injEq] at hstep
      obtain ⟨hle, rfl⟩ := hstep
      exact hnoted.fewer (fewer_tick hle) rfl
  | select tenantId domain chosen =>
      simp only [step, Option.ite_none_right_eq_some] at hstep
      obtain ⟨hanswer, hstep⟩ := hstep
      split at hstep
      · rw [Option.some.injEq] at hstep
        exact hstep ▸ hnoted
      · rename_i hexisting
        rw [Option.some.injEq] at hstep
        subst hstep
        -- the call goes on to insert, so there was no open claim
        have hnone : openClaims tenantId domain state.clock state.table = [] := by
          by_contra hstored
          obtain ⟨row, -, hrow⟩ :=
            existing_of_undisturbed hanswer hstored (hundisturbed hstored)
          rw [hexisting] at hrow
          cases hrow
        refine ⟨hnoted.one, ?_⟩
        intro call hcall claim hclaim
        rcases List.mem_cons.mp hcall with rfl | hcall
        · simp [hnone] at hclaim
        · exact hnoted.missed call hcall claim hclaim
  | insert call id token now =>
      simp only [step, Option.ite_none_right_eq_some] at hstep
      obtain ⟨⟨hcall, -, -⟩, hstep⟩ := hstep
      have hsub : ∀ other ∈ state.calls.erase call, other ∈ state.calls :=
        fun _ hother => List.mem_of_mem_erase hother
      split at hstep
      · rw [Option.some.injEq] at hstep
        exact hstep ▸ hnoted.dropCalls hsub
      · rename_i table hinsert
        rw [Option.some.injEq] at hstep
        exact hstep ▸ noted_insert hnoted hsub
          (hnoted.openClaims_eq_nil hcall hundisturbed) hinsert
  | statement statement =>
      simp only [step, Option.some.injEq] at hstep
      exact hstep ▸ hnoted.fewer (fewer_execute state statement) rfl

/-- An undisturbed step does what idempotence asks. -/
theorem returns_of_undisturbed {state next : State} {action : Action} (hnoted : Noted state)
    (hundisturbed : Undisturbed state action) (hstep : step state action = some next) :
    Returns state action := by
  cases action with
  | select tenantId domain chosen =>
      simp only [step, Option.ite_none_right_eq_some] at hstep
      intro claim hclaim
      have hstored : openClaims tenantId domain state.clock state.table ≠ [] :=
        List.ne_nil_of_mem hclaim
      obtain ⟨row, hrow, hexisting⟩ :=
        existing_of_undisturbed hstep.1 hstored (hundisturbed hstored)
      rw [hexisting, hnoted.one tenantId domain row hrow claim hclaim]
  | insert call id token now =>
      simp only [step, Option.ite_none_right_eq_some] at hstep
      exact hnoted.openClaims_eq_nil hstep.1.1 hundisturbed
  | tick now => trivial
  | statement statement => trivial

/-- A step that does what idempotence asks is undisturbed. -/
theorem undisturbed_of_returns {state next : State} {action : Action}
    (hreturns : Returns state action) (hstep : step state action = some next) :
    Undisturbed state action := by
  cases action with
  | select tenantId domain chosen =>
      simp only [step, Option.ite_none_right_eq_some] at hstep
      intro hstored row hrow
      rw [Option.mem_def] at hrow
      subst hrow
      obtain ⟨claim, hclaim⟩ := List.exists_mem_of_ne_nil _ hstored
      have hexisting : existing state.clock (some row) = some claim := hreturns claim hclaim
      rw [existing_some_of_pending (isAnswer_some_iff.mp hstep.1).2.2.2] at hexisting
      split at hexisting
      · cases hexisting
      · rename_i hfresh
        rwa [Bool.not_eq_true] at hfresh
  | insert call id token now =>
      intro claim hclaim
      have hnone : openClaims call.tenantId call.domain state.clock state.table = [] := hreturns
      simp [hnone] at hclaim
  | tick now => trivial
  | statement statement => trivial

/-- **When registration is idempotent.**  Along a run from any stored claims, no two
claims are ever open for a tenant and domain, every `SELECT` with an open claim
stored leads to that claim, and no `INSERT` is made while one is stored, exactly when
the stored claims begin so and the steps of the run are undisturbed. -/
theorem registration_idempotent_iff (start : State) (hcalls : start.calls = [])
    (actions : List Action) :
    ((∀ state, Machine.Visits step start actions state → AtMostOne state) ∧
      ∀ state action next, Machine.Taken step start actions state action next →
        Returns state action) ↔
    AtMostOne start ∧ ∀ state action next, Machine.Taken step start actions state action next →
      Undisturbed state action := by
  constructor
  · rintro ⟨hone, hreturns⟩
    refine ⟨hone start (Machine.visits_start start actions), ?_⟩
    intro state action next htaken
    obtain ⟨before, after, hactions, hbefore, hstep⟩ := id htaken
    exact undisturbed_of_returns (hreturns state action next htaken) hstep
  · rintro ⟨hone, hundisturbed⟩
    have hstart : Noted start := ⟨hone, by simp [hcalls]⟩
    have hnoted : ∀ before after state, actions = before ++ after →
        Machine.run step start before = some state → Noted state := by
      rintro before after state rfl hbefore
      refine Machine.run_invariant_of_allowed Noted Undisturbed (fun _ _ _ => step_noted) hstart
        ?_ hbefore
      intro state action next htaken
      exact hundisturbed state action next (htaken.append_right after)
    constructor
    · rintro state ⟨before, after, heq, hbefore⟩
      exact (hnoted before after state heq hbefore).one
    · intro state action next htaken
      have hallowed := hundisturbed state action next htaken
      obtain ⟨before, after, heq, hbefore, hstep⟩ := htaken
      exact returns_of_undisturbed (hnoted before _ state heq hbefore) hallowed hstep

/-! ### A claim, and another after it has expired -/

/-- No claim is stored. -/
def freshState : State := ⟨Table.empty, ofSecs 1767225600, []⟩

/-- A call registers the domain: the `SELECT` answers `chosen`, and the `INSERT` is
made at once. -/
def registerAt (chosen : Option DomainClaim) (id token : String) (secs : ℤ) : List Action :=
  [.tick (ofSecs secs), .select "tenant" "acme.com" chosen,
   .insert ⟨"tenant", "acme.com", ofSecs secs, []⟩ id token (ofSecs secs)]

/-- The first claim, and the one made three days later. -/
def firstClaim : DomainClaim := newClaim "01A" "tenant" "acme.com" "token-a" (ofSecs 1767225600)

def secondClaim : DomainClaim := newClaim "01B" "tenant" "acme.com" "token-b" (ofSecs 1767484800)

/-- The claim is registered, is registered anew when it has expired, and a third call
is answered with the second claim. -/
def answeredRun : List Action :=
  registerAt none "01A" "token-a" 1767225600 ++
    registerAt (some firstClaim) "01B" "token-b" 1767484800 ++
    [.select "tenant" "acme.com" (some secondClaim)]

/-- `answeredRun` is undisturbed, and its third call is answered. -/
theorem answeredRun_idempotent :
    (Machine.run step freshState answeredRun).any (fun state => decide
      (state.table.rows = [firstClaim, secondClaim] ∧ state.calls = [])) = true ∧
    (∀ state, Machine.Visits step freshState answeredRun state → AtMostOne state) ∧
    ∀ state action next, Machine.Taken step freshState answeredRun state action next →
      Returns state action := by
  have hundisturbed := Machine.forall_taken_of_checks
    (show Machine.checks step Undisturbed freshState answeredRun = true by decide)
  have hone : AtMostOne freshState := fun _ _ _ hclaim => by cases hclaim
  exact ⟨by decide,
    (registration_idempotent_iff freshState rfl answeredRun).mpr ⟨hone, hundisturbed⟩⟩

/-- The third call is answered with the first claim, which has expired. -/
def hiddenRun : List Action :=
  registerAt none "01A" "token-a" 1767225600 ++
    registerAt (some firstClaim) "01B" "token-b" 1767484800 ++
    registerAt (some firstClaim) "01C" "token-c" 1767484801

/-- In `hiddenRun` the calls run one after the other, and two claims of the tenant for
the domain are open in the end. -/
theorem expired_row_hides_claim : ∃ state,
    Machine.Visits step freshState hiddenRun state ∧ ¬ AtMostOne state := by
  have hends : (Machine.run step freshState hiddenRun).any (fun state => decide
      ((openClaims "tenant" "acme.com" state.clock state.table).map DomainClaim.id =
        ["01B", "01C"])) = true := by
    decide
  obtain ⟨state, hrun, hends⟩ := Machine.exists_final hends
  refine ⟨state, Machine.visits_final hrun, ?_⟩
  intro hone
  have hfirst : "01B" ∈ (openClaims "tenant" "acme.com" state.clock state.table).map
      DomainClaim.id := by simp [hends]
  have hsecond : "01C" ∈ (openClaims "tenant" "acme.com" state.clock state.table).map
      DomainClaim.id := by simp [hends]
  obtain ⟨claim, hclaim, hid⟩ := List.mem_map.mp hfirst
  obtain ⟨other, hother, hid'⟩ := List.mem_map.mp hsecond
  have hsame := hone "tenant" "acme.com" claim hclaim other hother
  rw [hsame, hid'] at hid
  exact absurd hid (by decide)

end Modo.Tenants.Registration
