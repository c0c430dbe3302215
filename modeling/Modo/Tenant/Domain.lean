import Modo.Lib.Machine
import Modo.Lib.Table
import Modo.Time

/-!
# Domain claims

`DomainService` keeps the domain claims of all tenants in one table, whose only
constraint is the primary key.  A tenant registers a claim, proves control of
the domain by a DNS TXT record, and may then enable the claim for email and for
routing.

Calls of more than one statement are split.  `register` looks for a pending
claim before it inserts one; `verify` reads the claim, then queries DNS or finds
the claim expired, and updates it by id later; the enable operations check the
status before they set the flag.  The statements of all calls interleave in any
order, and DNS may answer anything at any time.

Domains are the normalised names that `validate_domain` returns; every operation
validates its argument first.
-/

namespace Modo.Tenants

/-- `ClaimStatus`. -/
inductive ClaimStatus where
  | pending
  | verified
  | failed
  deriving DecidableEq

/-- `DomainClaim`, and a row of `tenant_domains`. -/
structure DomainClaim where
  id : String
  tenantId : String
  domain : String
  verificationToken : String
  status : ClaimStatus
  useForEmail : Bool
  useForRouting : Bool
  createdAt : DateTime
  verifiedAt : Option DateTime
  deriving DecidableEq

/-- The table has no unique index besides its primary key. -/
def DomainClaim.slot (_ : DomainClaim) : Option Unit := none

/-- The table `tenant_domains`. -/
abbrev DomainTable := Table DomainClaim.id DomainClaim.slot

/-- What a claim can be used for. -/
inductive Capability where
  | email
  | routing
  deriving DecidableEq

/-- `use_for_email` or `use_for_routing`. -/
def DomainClaim.uses (claim : DomainClaim) : Capability → Bool
  | .email => claim.useForEmail
  | .routing => claim.useForRouting

/-- `SET use_for_email = …` or `SET use_for_routing = …`. -/
def DomainClaim.setUse (claim : DomainClaim) (value : Bool) : Capability → DomainClaim
  | .email => { claim with useForEmail := value }
  | .routing => { claim with useForRouting := value }

@[simp] theorem DomainClaim.setUse_id (claim : DomainClaim) (value : Bool)
    (capability : Capability) : (claim.setUse value capability).id = claim.id := by
  cases capability <;> rfl

@[simp] theorem DomainClaim.setUse_status (claim : DomainClaim) (value : Bool)
    (capability : Capability) : (claim.setUse value capability).status = claim.status := by
  cases capability <;> rfl

@[simp] theorem DomainClaim.setUse_domain (claim : DomainClaim) (value : Bool)
    (capability : Capability) : (claim.setUse value capability).domain = claim.domain := by
  cases capability <;> rfl

@[simp] theorem DomainClaim.setUse_tenantId (claim : DomainClaim) (value : Bool)
    (capability : Capability) : (claim.setUse value capability).tenantId = claim.tenantId := by
  cases capability <;> rfl

theorem DomainClaim.uses_setUse (claim : DomainClaim) (value : Bool)
    (capability other : Capability) :
    (claim.setUse value capability).uses other =
      if other = capability then value else claim.uses other := by
  cases capability <;> cases other <;> rfl

/-- `SET status = 'failed'`. -/
def DomainClaim.setFailed (claim : DomainClaim) : DomainClaim := { claim with status := .failed }

/-- `SET status = 'verified', verified_at = …`. -/
def DomainClaim.setVerified (now : DateTime) (claim : DomainClaim) : DomainClaim :=
  { claim with status := .verified, verifiedAt := some now }

/-! ## The statements -/

/-- `VERIFICATION_EXPIRY_HOURS` in seconds. -/
def verificationExpirySecs : ℕ := 48 * 3600

/-- `is_expired`: more than 48 hours have passed. -/
def isExpired (createdAt now : DateTime) : Bool :=
  decide (createdAt.addSeconds verificationExpirySecs < now)

/-- The claim `register` inserts. -/
def newClaim (id tenantId domain token : String) (now : DateTime) : DomainClaim where
  id := id
  tenantId := tenantId
  domain := domain
  verificationToken := token
  status := .pending
  useForEmail := false
  useForRouting := false
  createdAt := now
  verifiedAt := none

/-- A statement that updates the claim under an id. -/
def updateClaim (id : String) (f : DomainClaim → DomainClaim)
    (hf : ∀ claim, (f claim).id = claim.id) (table : DomainTable) : DomainTable :=
  table.modify (fun claim => decide (claim.id = id)) f hf (fun _ _ _ => Or.inl rfl)

/-- The update of `verify` on an expired claim. -/
def markFailed (id : String) (table : DomainTable) : DomainTable :=
  updateClaim id DomainClaim.setFailed (fun _ => rfl) table

/-- The update of `verify` on a proved claim. -/
def markVerified (id : String) (now : DateTime) (table : DomainTable) : DomainTable :=
  updateClaim id (DomainClaim.setVerified now) (fun _ => rfl) table

/-- The update of the enable and disable operations. -/
def setCapability (value : Bool) (capability : Capability) (id : String) (table : DomainTable) :
    DomainTable :=
  updateClaim id (fun claim => claim.setUse value capability)
    (fun claim => claim.setUse_id value capability) table

/-- The update of `enable_email`. -/
def enableEmail : String → DomainTable → DomainTable := setCapability true .email

/-- `disable_email`. -/
def disableEmail : String → DomainTable → DomainTable := setCapability false .email

/-- The update of `enable_routing`. -/
def enableRouting : String → DomainTable → DomainTable := setCapability true .routing

/-- `disable_routing`. -/
def disableRouting : String → DomainTable → DomainTable := setCapability false .routing

/-- `remove`. -/
def remove (id : String) (table : DomainTable) : DomainTable :=
  table.delete fun claim => decide (claim.id = id)

/-- `require_verified` passes. -/
def requireVerified (id : String) (table : DomainTable) : Bool :=
  (table.get? id).any fun claim => decide (claim.status = .verified)

/-- The update of the enable operation of a capability. -/
def enable : Capability → String → DomainTable → DomainTable
  | .email => enableEmail
  | .routing => enableRouting

/-- The disable operation of a capability. -/
def disable : Capability → String → DomainTable → DomainTable
  | .email => disableEmail
  | .routing => disableRouting

/-! ## The lookups -/

/-- `TenantMatch`. -/
structure TenantMatch where
  tenantId : String
  domain : String
  deriving DecidableEq

/-- `domain = ?1 AND status = 'verified' AND use_for_… = 1`. -/
def selectable (capability : Capability) (domain : String) (claim : DomainClaim) : Bool :=
  decide (claim.domain = domain) && decide (claim.status = .verified) && claim.uses capability

/-- A lookup: `SELECT … LIMIT 1` may return any selectable claim, and returns
nothing only when there is none.  It is `none` when `chosen` is not a possible
answer. -/
def lookup (capability : Capability) (domain : String) (chosen : Option DomainClaim)
    (table : DomainTable) : Option (Option TenantMatch) :=
  match chosen with
  | none => if table.rows.any (selectable capability domain) then none else some none
  | some claim =>
      if claim ∈ table.rows ∧ selectable capability domain claim = true then
        some (some ⟨claim.tenantId, claim.domain⟩)
      else none

/-- `lookup_email_domain`, for the domain of the address. -/
def lookupEmailDomain : String → Option DomainClaim → DomainTable → Option (Option TenantMatch) :=
  lookup .email

/-- `lookup_routing_domain`. -/
def lookupRoutingDomain :
    String → Option DomainClaim → DomainTable → Option (Option TenantMatch) :=
  lookup .routing

/-- `resolve_tenant`. -/
def resolveTenant (domain : String) (chosen : Option DomainClaim) (table : DomainTable) :
    Option (Option String) :=
  (lookupRoutingDomain domain chosen table).map (Option.map TenantMatch.tenantId)

/-! ## Runs -/

/-- A call of `verify` between its statements. -/
inductive VerifyCall where
  /-- It read an expired claim and will mark it failed. -/
  | expired (id : String)
  /-- It read an open claim and queries DNS for the token. -/
  | checking (id domain token : String)
  /-- DNS returned the token, and it will mark the claim verified. -/
  | proved (id : String)
  deriving DecidableEq

/-- The table, the ids issued so far, and the calls between their statements. -/
structure State where
  table : DomainTable
  issued : List String
  /-- Tenant and domain of calls of `register` that found no pending claim. -/
  registers : List (String × String)
  verifies : List VerifyCall
  /-- Enable operations that have found their claim verified. -/
  enables : List (Capability × String)

/-- The empty service. -/
def State.initial : State := ⟨Table.empty, [], [], [], []⟩

/-- A step of a run. -/
inductive Action where
  /-- The read of `register`. -/
  | register (tenantId domain : String) (now : DateTime)
  /-- The insert of `register`. -/
  | insert (tenantId domain id token : String) (now : DateTime)
  /-- The read of `verify`. -/
  | verify (id : String) (now : DateTime)
  /-- DNS answers a call of `verify` with the TXT records, or fails. -/
  | resolveTxt (id domain token : String) (records : Option (List String))
  /-- The update of `verify` on an expired claim. -/
  | markFailed (id : String)
  /-- The update of `verify` on a proved claim. -/
  | markVerified (id : String) (now : DateTime)
  | remove (id : String)
  /-- The check of an enable operation. -/
  | requireVerified (capability : Capability) (id : String)
  /-- The update of an enable operation. -/
  | enable (capability : Capability) (id : String)
  | disable (capability : Capability) (id : String)

/-- The pending claim `register` returns instead of making another: the one the
`SELECT … LIMIT 1` finds, unless it has expired. -/
def existingClaim (tenantId domain : String) (now : DateTime) (table : DomainTable) :
    Option DomainClaim :=
  (table.rows.find? fun claim => decide (claim.tenantId = tenantId ∧ claim.domain = domain ∧
    claim.status = .pending)).filter fun claim => !isExpired claim.createdAt now

/-- What `verify` does after its read. -/
def afterRead (claim : DomainClaim) (now : DateTime) : Option VerifyCall :=
  if claim.status = .verified then none
  else if isExpired claim.createdAt now then some (.expired claim.id)
  else some (.checking claim.id claim.domain claim.verificationToken)

/-- One step. -/
def step (state : State) : Action → Option State
  | .register tenantId domain now =>
      match existingClaim tenantId domain now state.table with
      | some _ => some state
      | none => some { state with registers := (tenantId, domain) :: state.registers }
  | .insert tenantId domain id token now =>
      -- ULIDs do not repeat
      if (tenantId, domain) ∈ state.registers ∧ id ∉ state.issued then
        match state.table.insert (newClaim id tenantId domain token now) with
        | none => none
        | some table =>
            some { state with
              table := table, issued := id :: state.issued,
              registers := state.registers.erase (tenantId, domain) }
      else none
  | .verify id now =>
      match (state.table.get? id).bind fun claim => afterRead claim now with
      | none => some state
      | some call => some { state with verifies := call :: state.verifies }
  | .resolveTxt id domain token records =>
      if .checking id domain token ∈ state.verifies then
        let verifies := state.verifies.erase (.checking id domain token)
        if records.any fun found => decide (token ∈ found) then
          some { state with verifies := .proved id :: verifies }
        else some { state with verifies := verifies }
      else none
  | .markFailed id =>
      if .expired id ∈ state.verifies then
        some { state with
          table := markFailed id state.table, verifies := state.verifies.erase (.expired id) }
      else none
  | .markVerified id now =>
      if .proved id ∈ state.verifies then
        some { state with
          table := markVerified id now state.table, verifies := state.verifies.erase (.proved id) }
      else none
  | .remove id => some { state with table := remove id state.table }
  | .requireVerified capability id =>
      if requireVerified id state.table then
        some { state with enables := (capability, id) :: state.enables }
      else some state
  | .enable capability id =>
      if (capability, id) ∈ state.enables then
        some { state with
          table := enable capability id state.table,
          enables := state.enables.erase (capability, id) }
      else none
  | .disable capability id => some { state with table := disable capability id state.table }

/-- Play a list of actions from the empty service. -/
abbrev run (actions : List Action) : Option State := Machine.run step State.initial actions

/-- One step of a run from the empty service. -/
abbrev Taken (actions : List Action) : State → Action → State → Prop :=
  Machine.Taken step State.initial actions

/-! ## What a step does to one claim -/

theorem get?_updateClaim (id : String) (f : DomainClaim → DomainClaim)
    (hf : ∀ claim, (f claim).id = claim.id) (table : DomainTable) (k : String) :
    (updateClaim id f hf table).get? k =
      if k = id then (table.get? k).map f else table.get? k := by
  unfold updateClaim
  rw [Table.get?_modify, Table.map_setWhere_key]

theorem get?_enable (capability : Capability) (id : String) (table : DomainTable) (k : String) :
    (enable capability id table).get? k =
      if k = id then (table.get? k).map fun claim => claim.setUse true capability
      else table.get? k := by
  cases capability <;>
    exact get?_updateClaim id _ (fun claim => claim.setUse_id true _) table k

theorem get?_disable (capability : Capability) (id : String) (table : DomainTable) (k : String) :
    (disable capability id table).get? k =
      if k = id then (table.get? k).map fun claim => claim.setUse false capability
      else table.get? k := by
  cases capability <;>
    exact get?_updateClaim id _ (fun claim => claim.setUse_id false _) table k

/-- Everything a step can do to the claim under `id`. -/
inductive RowStep (state : State) (id : String) :
    Action → Option DomainClaim → Option DomainClaim → Prop
  | same (action : Action) (claim : Option DomainClaim) : RowStep state id action claim claim
  | insert (tenantId domain token : String) (now : DateTime) (hfresh : id ∉ state.issued) :
      RowStep state id (.insert tenantId domain id token now) none
        (some (newClaim id tenantId domain token now))
  | fail (claim : DomainClaim) (hcall : .expired id ∈ state.verifies) :
      RowStep state id (.markFailed id) (some claim) (some claim.setFailed)
  | verify (claim : DomainClaim) (now : DateTime) (hcall : .proved id ∈ state.verifies) :
      RowStep state id (.markVerified id now) (some claim) (some (claim.setVerified now))
  | remove (claim : Option DomainClaim) : RowStep state id (.remove id) claim none
  | enable (capability : Capability) (claim : DomainClaim)
      (hcall : (capability, id) ∈ state.enables) :
      RowStep state id (.enable capability id) (some claim) (some (claim.setUse true capability))
  | disable (capability : Capability) (claim : DomainClaim) :
      RowStep state id (.disable capability id) (some claim)
        (some (claim.setUse false capability))

/-- A step that updates the claim under one id. -/
theorem rowStep_of_update {state next : State} {action : Action} {id k : String}
    {f : DomainClaim → DomainClaim}
    (hget : ∀ k, next.table.get? k =
      if k = id then (state.table.get? k).map f else state.table.get? k)
    (hrow : ∀ claim, RowStep state id action (some claim) (some (f claim))) :
    RowStep state k action (state.table.get? k) (next.table.get? k) := by
  rw [hget]
  by_cases hk : k = id
  · subst hk
    rw [if_pos rfl]
    cases state.table.get? k with
    | none => exact .same _ _
    | some claim => exact hrow claim
  · rw [if_neg hk]
    exact .same _ _

/-- **One step changes the claim under an id in one of the ways of `RowStep`.** -/
theorem step_rowStep {state next : State} {action : Action} (hstep : step state action = some next)
    (k : String) : RowStep state k action (state.table.get? k) (next.table.get? k) := by
  cases action with
  | register tenantId domain now =>
      simp only [step] at hstep
      split at hstep <;> (rw [Option.some.injEq] at hstep; subst hstep; exact .same _ _)
  | insert tenantId domain id token now =>
      simp only [step, Option.ite_none_right_eq_some] at hstep
      obtain ⟨⟨-, hfresh⟩, hstep⟩ := hstep
      split at hstep
      · cases hstep
      · rename_i table hinsert
        rw [Option.some.injEq] at hstep
        subst hstep
        have hget : ∀ k, table.get? k = if id = k then
            some (newClaim id tenantId domain token now) else state.table.get? k :=
          Table.get?_insert hinsert
        -- the id is fresh, so there was no claim under it
        have hfree : state.table.get? id = none := Table.get?_eq_none_of_insert hinsert
        rw [hget]
        split
        · rename_i hk
          subst hk
          rw [hfree]
          exact .insert tenantId domain token now hfresh
        · exact .same _ _
  | verify id now =>
      simp only [step] at hstep
      split at hstep <;> (rw [Option.some.injEq] at hstep; subst hstep; exact .same _ _)
  | resolveTxt id domain token records =>
      simp only [step, Option.ite_none_right_eq_some] at hstep
      obtain ⟨-, hstep⟩ := hstep
      split at hstep <;> (rw [Option.some.injEq] at hstep; subst hstep; exact .same _ _)
  | markFailed id =>
      simp only [step, Option.ite_none_right_eq_some, Option.some.injEq] at hstep
      obtain ⟨hcall, rfl⟩ := hstep
      have hget := get?_updateClaim id DomainClaim.setFailed (fun _ => rfl) state.table
      exact rowStep_of_update hget fun claim => .fail claim hcall
  | markVerified id now =>
      simp only [step, Option.ite_none_right_eq_some, Option.some.injEq] at hstep
      obtain ⟨hcall, rfl⟩ := hstep
      have hget := get?_updateClaim id (DomainClaim.setVerified now) (fun _ => rfl) state.table
      exact rowStep_of_update hget fun claim => .verify claim now hcall
  | remove id =>
      simp only [step, Option.some.injEq] at hstep
      subst hstep
      have hget : ∀ k, (remove id state.table).get? k =
          if k = id then none else state.table.get? k := Table.get?_delete_key state.table id
      rw [hget]
      split
      · rename_i hk
        subst hk
        exact .remove _
      · exact .same _ _
  | requireVerified capability id =>
      simp only [step] at hstep
      split at hstep <;> (rw [Option.some.injEq] at hstep; subst hstep; exact .same _ _)
  | enable capability id =>
      simp only [step, Option.ite_none_right_eq_some, Option.some.injEq] at hstep
      obtain ⟨hcall, rfl⟩ := hstep
      exact rowStep_of_update (get?_enable capability id state.table) fun claim =>
        .enable capability claim hcall
  | disable capability id =>
      simp only [step, Option.some.injEq] at hstep
      subst hstep
      exact rowStep_of_update (get?_disable capability id state.table) fun claim =>
        .disable capability claim

/-- Issued ids stay issued, and an enable operation gets past its check when its
claim is verified. -/
theorem step_calls {state next : State} {action : Action} (hstep : step state action = some next) :
    (∀ id ∈ state.issued, id ∈ next.issued) ∧
      ∀ call ∈ next.enables, call ∈ state.enables ∨ requireVerified call.2 state.table = true := by
  -- most steps touch neither the issued ids nor the pending operations
  have hsame : ∀ state' : State, some state' = some next → state'.issued = state.issued →
      state'.enables = state.enables → (∀ id ∈ state.issued, id ∈ next.issued) ∧
        ∀ call ∈ next.enables, call ∈ state.enables ∨
          requireVerified call.2 state.table = true := by
    intro state' heq hissued henables
    rw [Option.some.injEq] at heq
    subst heq
    rw [hissued, henables]
    exact ⟨fun id hid => hid, fun call hcall => Or.inl hcall⟩
  cases action with
  | register tenantId domain now =>
      simp only [step] at hstep
      split at hstep <;> exact hsame _ hstep rfl rfl
  | insert tenantId domain id token now =>
      simp only [step, Option.ite_none_right_eq_some] at hstep
      obtain ⟨-, hstep⟩ := hstep
      split at hstep
      · cases hstep
      · rw [Option.some.injEq] at hstep
        subst hstep
        exact ⟨fun id hid => List.mem_cons_of_mem _ hid, fun call hcall => Or.inl hcall⟩
  | verify id now =>
      simp only [step] at hstep
      split at hstep <;> exact hsame _ hstep rfl rfl
  | resolveTxt id domain token records =>
      simp only [step, Option.ite_none_right_eq_some] at hstep
      obtain ⟨-, hstep⟩ := hstep
      split at hstep <;> exact hsame _ hstep rfl rfl
  | markFailed id =>
      simp only [step, Option.ite_none_right_eq_some] at hstep
      exact hsame _ hstep.2 rfl rfl
  | markVerified id now =>
      simp only [step, Option.ite_none_right_eq_some] at hstep
      exact hsame _ hstep.2 rfl rfl
  | remove id => exact hsame _ hstep rfl rfl
  | requireVerified capability id =>
      simp only [step] at hstep
      split at hstep
      · rename_i hverified
        rw [Option.some.injEq] at hstep
        subst hstep
        refine ⟨fun id hid => hid, fun call hcall => ?_⟩
        rcases List.mem_cons.mp hcall with rfl | hold
        · exact Or.inr hverified
        · exact Or.inl hold
      · exact hsame _ hstep rfl rfl
  | enable capability id =>
      simp only [step, Option.ite_none_right_eq_some, Option.some.injEq] at hstep
      obtain ⟨-, rfl⟩ := hstep
      exact ⟨fun id hid => hid, fun call hcall => Or.inl (List.mem_of_mem_erase hcall)⟩
  | disable capability id => exact hsame _ hstep rfl rfl

end Modo.Tenants
