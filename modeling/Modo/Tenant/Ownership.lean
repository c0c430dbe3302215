import Modo.Tenant.Domain

/-!
# The tenants a domain belongs to

Nothing in the schema ties a domain to one tenant: each claim is verified on its
own token, and DNS may return the token of another tenant at another time.  A
lookup takes whichever of the selectable claims `LIMIT 1` returns.

`SingleOwner` says that all selectable claims of a domain belong to one tenant.
A step can break it only by making a claim selectable, which are the update of
an enable operation and the update of `verify` on a claim that is already in
use (`selectable_before`).  `Exclusive` asks of these two that no claim of
another tenant is selectable at that moment, and the states of a run have single
owners exactly when its steps are exclusive.
-/

namespace Modo.Tenants

open DateTime (ofSecs)

/-- The claims a lookup may select belong to one tenant. -/
def SingleOwner (table : DomainTable) : Prop :=
  ∀ capability domain, ∀ claim ∈ table.rows, selectable capability domain claim = true →
    ∀ other ∈ table.rows, selectable capability domain other = true →
      claim.tenantId = other.tenantId

/-- The claims selectable for the claim's domain belong to its tenant. -/
def Unrivalled (table : DomainTable) (capability : Capability) (claim : DomainClaim) : Prop :=
  ∀ other ∈ table.rows, selectable capability claim.domain other = true →
    other.tenantId = claim.tenantId

instance (table : DomainTable) (capability : Capability) (claim : DomainClaim) :
    Decidable (Unrivalled table capability claim) :=
  inferInstanceAs (Decidable (∀ other ∈ table.rows,
    selectable capability claim.domain other = true → other.tenantId = claim.tenantId))

/-- A claim becomes selectable only while no claim of another tenant is. -/
def Exclusive (state : State) : Action → Prop
  | .enable capability id => ∀ claim ∈ state.table.get? id, claim.status = .verified →
      Unrivalled state.table capability claim
  | .markVerified id _ => ∀ claim ∈ state.table.get? id, ∀ capability,
      claim.uses capability = true → Unrivalled state.table capability claim
  | _ => True

instance (p : Capability → Prop) [DecidablePred p] : Decidable (∀ capability, p capability) :=
  decidable_of_iff (p .email ∧ p .routing)
    ⟨fun h capability => by cases capability <;> [exact h.1; exact h.2],
      fun h => ⟨h .email, h .routing⟩⟩

instance (state : State) : (action : Action) → Decidable (Exclusive state action)
  | .enable capability id => inferInstanceAs (Decidable (∀ claim ∈ state.table.get? id,
      claim.status = .verified → Unrivalled state.table capability claim))
  | .markVerified id _ => inferInstanceAs (Decidable (∀ claim ∈ state.table.get? id,
      ∀ capability, claim.uses capability = true → Unrivalled state.table capability claim))
  | .register .. | .insert .. | .verify .. | .resolveTxt .. | .markFailed _ | .remove _ |
    .requireVerified .. | .disable .. => isTrue trivial

theorem selectable_iff {capability : Capability} {domain : String} {claim : DomainClaim} :
    selectable capability domain claim = true ↔
      claim.domain = domain ∧ claim.status = .verified ∧ claim.uses capability = true := by
  simp [selectable, and_assoc]

/-! ## What makes a claim selectable -/

/-- The step makes the claim under `id` selectable. -/
inductive Activates (state : State) (capability : Capability) (claim : DomainClaim) :
    Action → Prop
  | enable (hget : state.table.get? claim.id = some claim) (hstatus : claim.status = .verified) :
      Activates state capability claim (.enable capability claim.id)
  | verify (now : DateTime) (hget : state.table.get? claim.id = some claim)
      (huses : claim.uses capability = true) :
      Activates state capability claim (.markVerified claim.id now)

/-- A claim that is selectable was so before, or the step made it so. -/
theorem selectable_before {state next : State} {action : Action}
    (hstep : step state action = some next) {capability : Capability} {domain : String}
    {claim : DomainClaim} (hclaim : claim ∈ next.table.rows)
    (hselectable : selectable capability domain claim = true) :
    ∃ old ∈ state.table.rows, old.tenantId = claim.tenantId ∧ old.domain = domain ∧
      (selectable capability domain old = true ∨ Activates state capability old action) := by
  have hget : next.table.get? claim.id = some claim := Table.get?_eq_some.mpr ⟨hclaim, rfl⟩
  have hrow := step_rowStep hstep claim.id
  rw [hget] at hrow
  obtain ⟨hdomain, hstatus, huses⟩ := selectable_iff.mp hselectable
  -- the step wrote the row in one of the ways of `RowStep`
  generalize hbefore : state.table.get? claim.id = before at hrow
  generalize claim.id = id at hrow hbefore
  cases hrow with
  | same =>
      exact ⟨claim, Table.mem_of_get? hbefore, rfl, hdomain, Or.inl hselectable⟩
  | insert tenantId domain token now hfresh => cases hstatus
  | fail old hcall => cases hstatus
  | verify old now hcall =>
      have hold : old.id = id := Table.get?_key hbefore
      have hused : old.uses capability = true := by cases capability <;> exact huses
      refine ⟨old, Table.mem_of_get? hbefore, rfl, hdomain, Or.inr ?_⟩
      subst hold
      exact .verify now hbefore hused
  | enable enabled old hcall =>
      have hold : old.id = id := Table.get?_key hbefore
      rw [DomainClaim.setUse_domain] at hdomain
      rw [DomainClaim.setUse_status] at hstatus
      refine ⟨old, Table.mem_of_get? hbefore, by simp, hdomain, ?_⟩
      rw [DomainClaim.uses_setUse] at huses
      by_cases hcapability : capability = enabled
      · subst hcapability hold
        exact Or.inr (.enable hbefore hstatus)
      · rw [if_neg hcapability] at huses
        exact Or.inl (selectable_iff.mpr ⟨hdomain, hstatus, huses⟩)
  | disable disabled old =>
      rw [DomainClaim.setUse_domain] at hdomain
      rw [DomainClaim.setUse_status] at hstatus
      rw [DomainClaim.uses_setUse] at huses
      refine ⟨old, Table.mem_of_get? hbefore, by simp, hdomain, Or.inl ?_⟩
      split at huses
      · cases huses
      · exact selectable_iff.mpr ⟨hdomain, hstatus, huses⟩

/-- An exclusive step makes a claim selectable that has no rival. -/
theorem Activates.unrivalled {state : State} {capability : Capability} {claim : DomainClaim}
    {action : Action} (hactivates : Activates state capability claim action)
    (hexclusive : Exclusive state action) : Unrivalled state.table capability claim := by
  cases hactivates with
  | enable hget hstatus => exact hexclusive claim hget hstatus
  | verify now hget huses => exact hexclusive claim hget capability huses

/-- A step makes at most one claim selectable. -/
theorem Activates.eq {state : State} {capability : Capability} {claim other : DomainClaim}
    {action : Action} (hclaim : Activates state capability claim action)
    (hother : Activates state capability other action) : claim = other := by
  cases hclaim with
  | enable hget hstatus =>
      generalize haction : Action.enable capability claim.id = action at hother
      cases hother with
      | enable hgetOther hstatusOther =>
          simp only [Action.enable.injEq, true_and] at haction
          rw [haction, hgetOther, Option.some.injEq] at hget
          exact hget.symm
      | verify now hgetOther husesOther => cases haction
  | verify now hget huses =>
      generalize haction : Action.markVerified claim.id now = action at hother
      cases hother with
      | enable hgetOther hstatusOther => cases haction
      | verify now hgetOther husesOther =>
          simp only [Action.markVerified.injEq] at haction
          rw [haction.1, hgetOther, Option.some.injEq] at hget
          exact hget.symm

theorem step_singleOwner {state next : State} {action : Action}
    (howner : SingleOwner state.table) (hexclusive : Exclusive state action)
    (hstep : step state action = some next) : SingleOwner next.table := by
  intro capability domain claim hclaim hselectable other hother hselectableOther
  obtain ⟨old, hold, htenant, hdomain, hwas⟩ := selectable_before hstep hclaim hselectable
  obtain ⟨oldOther, holdOther, htenantOther, hdomainOther, hwasOther⟩ :=
    selectable_before hstep hother hselectableOther
  rw [← htenant, ← htenantOther]
  rcases hwas with hsame | hactivates <;> rcases hwasOther with hsameOther | hactivatesOther
  · exact howner capability domain old hold hsame oldOther holdOther hsameOther
  · exact hactivatesOther.unrivalled hexclusive old hold (hdomainOther ▸ hsame)
  · exact (hactivates.unrivalled hexclusive oldOther holdOther (hdomain ▸ hsameOther)).symm
  · rw [hactivates.eq hactivatesOther]

/-- If an update makes a claim selectable and all owners are single afterwards,
the claim had no rival. -/
theorem unrivalled_of_update {table table' : DomainTable} {id : String}
    {f : DomainClaim → DomainClaim} {claim : DomainClaim} {capability : Capability}
    (hget : ∀ k, table'.get? k = if k = id then (table.get? k).map f else table.get? k)
    (hclaim : table.get? id = some claim) (htenant : (f claim).tenantId = claim.tenantId)
    (hselectable : selectable capability claim.domain (f claim) = true)
    (howner : SingleOwner table') : Unrivalled table capability claim := by
  intro other hother hselectableOther
  by_cases hid : other.id = id
  · have hsame : table.get? id = some other := Table.get?_eq_some.mpr ⟨hother, hid⟩
    rw [hclaim, Option.some.injEq] at hsame
    rw [hsame]
  · have hafter : table'.get? id = some (f claim) := by rw [hget, if_pos rfl, hclaim]; rfl
    have hrest : table'.get? other.id = some other := by
      rw [hget, if_neg hid]
      exact Table.get?_eq_some.mpr ⟨hother, rfl⟩
    rw [← htenant]
    exact (howner capability claim.domain (f claim) (Table.mem_of_get? hafter) hselectable other
      (Table.mem_of_get? hrest) hselectableOther).symm

/-- A step into a state with single owners is exclusive. -/
theorem exclusive_of_singleOwner {state next : State} {action : Action}
    (hstep : step state action = some next) (howner : SingleOwner next.table) :
    Exclusive state action := by
  cases action with
  | enable capability id =>
      simp only [step, Option.ite_none_right_eq_some, Option.some.injEq] at hstep
      obtain ⟨-, rfl⟩ := hstep
      intro claim hclaim hstatus
      refine unrivalled_of_update (get?_enable capability id state.table) hclaim (by simp) ?_ howner
      rw [selectable_iff, DomainClaim.setUse_domain, DomainClaim.setUse_status,
        DomainClaim.uses_setUse, if_pos rfl]
      exact ⟨rfl, hstatus, rfl⟩
  | markVerified id now =>
      simp only [step, Option.ite_none_right_eq_some, Option.some.injEq] at hstep
      obtain ⟨-, rfl⟩ := hstep
      intro claim hclaim capability huses
      have hget := get?_updateClaim id (DomainClaim.setVerified now) (fun _ => rfl) state.table
      refine unrivalled_of_update hget hclaim rfl ?_ howner
      rw [selectable_iff]
      exact ⟨rfl, rfl, by cases capability <;> exact huses⟩
  | _ => trivial

/-! ## The result -/

/-- With single owners a lookup has one answer. -/
theorem lookup_eq_of_singleOwner {table : DomainTable} (howner : SingleOwner table)
    {capability : Capability} {domain : String} {chosen chosen' : Option DomainClaim}
    {answer answer' : Option TenantMatch}
    (hanswer : lookup capability domain chosen table = some answer)
    (hanswer' : lookup capability domain chosen' table = some answer') : answer = answer' := by
  have hsome : ∀ claim ∈ table.rows, selectable capability domain claim = true →
      table.rows.any (selectable capability domain) = true :=
    fun claim hclaim hselectable => List.any_eq_true.mpr ⟨claim, hclaim, hselectable⟩
  cases chosen with
  | none =>
      simp only [lookup, Option.ite_none_left_eq_some, Option.some.injEq] at hanswer
      cases chosen' with
      | none =>
          simp only [lookup, Option.ite_none_left_eq_some, Option.some.injEq] at hanswer'
          rw [← hanswer.2, hanswer'.2]
      | some claim =>
          simp only [lookup, Option.ite_none_right_eq_some, Option.some.injEq] at hanswer'
          exact absurd (hsome claim hanswer'.1.1 hanswer'.1.2) hanswer.1
  | some claim =>
      simp only [lookup, Option.ite_none_right_eq_some, Option.some.injEq] at hanswer
      cases chosen' with
      | none =>
          simp only [lookup, Option.ite_none_left_eq_some, Option.some.injEq] at hanswer'
          exact absurd (hsome claim hanswer.1.1 hanswer.1.2) hanswer'.1
      | some other =>
          simp only [lookup, Option.ite_none_right_eq_some, Option.some.injEq] at hanswer'
          have htenant := howner capability domain claim hanswer.1.1 hanswer.1.2 other
            hanswer'.1.1 hanswer'.1.2
          have hdomain : claim.domain = other.domain :=
            (selectable_iff.mp hanswer.1.2).1.trans (selectable_iff.mp hanswer'.1.2).1.symm
          rw [← hanswer.2, ← hanswer'.2, htenant, hdomain]

/-- **A domain belongs to one tenant** in all states of a run exactly when the
steps of the run are exclusive, and then the answers of the lookups do not
depend on the row that `LIMIT 1` returns. -/
theorem routes_to_one_tenant (actions : List Action) (final : State)
    (hrun : run actions = some final) :
    ((∀ first rest state, actions = first ++ rest → run first = some state →
        SingleOwner state.table) ↔
      ∀ before action after, Taken actions before action after → Exclusive before action) ∧
    (SingleOwner final.table → ∀ (domain : String) (chosen chosen' : Option DomainClaim),
      (∀ answer answer', lookupEmailDomain domain chosen final.table = some answer →
        lookupEmailDomain domain chosen' final.table = some answer' → answer = answer') ∧
      (∀ answer answer', lookupRoutingDomain domain chosen final.table = some answer →
        lookupRoutingDomain domain chosen' final.table = some answer' → answer = answer') ∧
      ∀ answer answer', resolveTenant domain chosen final.table = some answer →
        resolveTenant domain chosen' final.table = some answer' → answer = answer') := by
  constructor
  · constructor
    · rintro howner before action after ⟨first, rest, rfl, hfirst, hstep⟩
      refine exclusive_of_singleOwner hstep (howner (first ++ [action]) rest after (by simp) ?_)
      exact Machine.run_append_eq_some.mpr
        ⟨before, hfirst, Machine.run_singleton_eq_some.mpr hstep⟩
    · rintro hexclusive first rest state rfl hfirst
      refine Machine.run_invariant_of_allowed (fun state => SingleOwner state.table) Exclusive
        (fun _ _ _ => step_singleOwner) ?_ (fun before action after htaken =>
          hexclusive before action after (htaken.append_right rest)) hfirst
      simp [State.initial, Table.empty, SingleOwner]
  · intro howner domain chosen chosen'
    refine ⟨fun _ _ => lookup_eq_of_singleOwner howner,
      fun _ _ => lookup_eq_of_singleOwner howner, ?_⟩
    intro answer answer' hanswer hanswer'
    obtain ⟨found, hfound, rfl⟩ := Option.map_eq_some_iff.mp hanswer
    obtain ⟨found', hfound', rfl⟩ := Option.map_eq_some_iff.mp hanswer'
    rw [lookup_eq_of_singleOwner howner hfound hfound']

/-! ## Runs on fixed inputs -/

/-- A tenant registers the domain, proves it by its token, and enables routing. -/
def claimAndRoute (tenantId id token : String) (now : DateTime) : List Action :=
  [.register tenantId "example.com" now, .insert tenantId "example.com" id token now,
    .verify id now, .resolveTxt id "example.com" token (some [token]), .markVerified id now,
    .requireVerified .routing id, .enable .routing id]

/-- The domain changes hands, and the first tenant's claim stays. -/
def changedOwner : List Action :=
  claimAndRoute "acme" "01A" "first" (ofSecs 1767225600) ++
    claimAndRoute "globex" "01B" "second" (ofSecs 1798761600)

/-- Afterwards the domain resolves to either tenant. -/
theorem domain_routes_to_two_tenants :
    ∃ state first second, run changedOwner = some state ∧
      resolveTenant "example.com" first state.table = some (some "acme") ∧
      resolveTenant "example.com" second state.table = some (some "globex") := by
  have hany : (run changedOwner).any (fun state =>
      decide (resolveTenant "example.com" (state.table.get? "01A") state.table =
          some (some "acme") ∧
        resolveTenant "example.com" (state.table.get? "01B") state.table =
          some (some "globex"))) = true := by
    decide
  obtain ⟨state, hrun, hfirst, hsecond⟩ := Machine.exists_final hany
  exact ⟨state, _, _, hrun, hfirst, hsecond⟩

/-- With the first tenant's claim removed in between, the second one owns the
domain alone. -/
theorem removed_claim_singleOwner :
    ∃ state,
      run (claimAndRoute "acme" "01A" "first" (ofSecs 1767225600) ++ .remove "01A" ::
        claimAndRoute "globex" "01B" "second" (ofSecs 1798761600)) = some state ∧
      SingleOwner state.table := by
  have hsome : (run (claimAndRoute "acme" "01A" "first" (ofSecs 1767225600) ++ .remove "01A" ::
      claimAndRoute "globex" "01B" "second" (ofSecs 1798761600))).isSome = true := by
    decide
  obtain ⟨state, hrun⟩ := Option.isSome_iff_exists.mp hsome
  refine ⟨state, hrun, ((routes_to_one_tenant _ state hrun).1.mpr ?_) _ [] state (by simp) hrun⟩
  exact Machine.forall_taken_of_checks (by decide)

end Modo.Tenants
