import Modo.Tenant.Domain

/-!
# Verified claims stay verified

`verify` decides from the status it has read and updates the claim by its id
later.  A call that found the claim expired may therefore mark it failed after
another call has marked it verified, and with it a claim that is in use.

* `SparesVerified` is the condition on the steps of a run: a claim that is
  marked failed is not verified at that moment.
* `Absorbed` says of an id that its claim, if there still is one, is verified;
  every step that meets the condition keeps it.
* From it follows that the enable operations, which check the status before they
  set the flag, set it on verified claims only (`Sound`).
-/

namespace Modo.Tenants

open DateTime (ofSecs)

/-- An expired claim is not marked failed while it is verified. -/
def SparesVerified (state : State) : Action → Prop
  | .markFailed id => ∀ claim, state.table.get? id = some claim → claim.status ≠ .verified
  | _ => True

instance (state : State) : (action : Action) → Decidable (SparesVerified state action)
  | .markFailed id =>
      decidable_of_iff (((state.table.get? id).all fun claim =>
        decide (claim.status ≠ .verified)) = true)
        (by rw [Option.all_eq_true]; simp [SparesVerified])
  | .register .. | .insert .. | .verify .. | .resolveTxt .. | .markVerified .. | .remove _ |
    .requireVerified .. | .enable .. | .disable .. => isTrue trivial

/-- The claim under `id` is verified for as long as it exists. -/
def Absorbed (id : String) (state : State) : Prop :=
  id ∈ state.issued ∧ ∀ claim, state.table.get? id = some claim → claim.status = .verified

/-- A verified claim stays verified until it is removed. -/
theorem step_absorbed {state next : State} {action : Action} {id : String}
    (habsorbed : Absorbed id state) (hspares : SparesVerified state action)
    (hstep : step state action = some next) : Absorbed id next := by
  refine ⟨(step_calls hstep).1 id habsorbed.1, ?_⟩
  intro claim hget
  have hrow := step_rowStep hstep id
  rw [hget] at hrow
  generalize hbefore : state.table.get? id = before at hrow
  cases hrow with
  | same => exact habsorbed.2 claim hbefore
  | insert tenantId domain token now hfresh => exact absurd habsorbed.1 hfresh
  | fail old hcall => exact absurd (habsorbed.2 old hbefore) (hspares old hbefore)
  | verify old now hcall => rfl
  | enable capability old hcall =>
      rw [DomainClaim.setUse_status]
      exact habsorbed.2 old hbefore
  | disable capability old =>
      rw [DomainClaim.setUse_status]
      exact habsorbed.2 old hbefore

/-! ## The flags -/

/-- The invariant of a run whose steps spare verified claims. -/
structure Sound (state : State) : Prop where
  stored : ∀ id claim, state.table.get? id = some claim → id ∈ state.issued
  /-- Enable operations past their check. -/
  enables : ∀ call ∈ state.enables, Absorbed call.2 state
  flags : ∀ id claim capability, state.table.get? id = some claim →
    claim.uses capability = true → claim.status = .verified

theorem sound_initial : Sound State.initial := by
  constructor <;> simp [State.initial]

theorem step_sound {state next : State} {action : Action} (hsound : Sound state)
    (hspares : SparesVerified state action) (hstep : step state action = some next) :
    Sound next := by
  constructor
  · intro id claim hget
    have hrow := step_rowStep hstep id
    rw [hget] at hrow
    cases hbefore : state.table.get? id with
    | some old => exact (step_calls hstep).1 id (hsound.stored id old hbefore)
    | none =>
        rw [hbefore] at hrow
        cases hrow with
        | insert tenantId domain token now hfresh =>
            simp only [step, Option.ite_none_right_eq_some] at hstep
            obtain ⟨-, hstep⟩ := hstep
            split at hstep
            · cases hstep
            · rw [Option.some.injEq] at hstep
              subst hstep
              exact List.mem_cons_self
  · intro call hcall
    refine step_absorbed ?_ hspares hstep
    rcases (step_calls hstep).2 call hcall with hold | hverified
    · exact hsound.enables call hold
    · obtain ⟨claim, hget, hstatus⟩ := (Option.any_eq_true _ _).mp hverified
      refine ⟨hsound.stored call.2 claim hget, fun other hother => ?_⟩
      rw [hget, Option.some.injEq] at hother
      exact hother ▸ of_decide_eq_true hstatus
  · intro id claim capability hget huses
    have hrow := step_rowStep hstep id
    rw [hget] at hrow
    generalize hbefore : state.table.get? id = before at hrow
    cases hrow with
    | same => exact hsound.flags id claim capability hbefore huses
    | insert tenantId domain token now hfresh => cases capability <;> cases huses
    | fail old hcall =>
        -- a claim in use is verified, and those are spared
        have hold : old.uses capability = true := by cases capability <;> exact huses
        exact absurd (hsound.flags id old capability hbefore hold) (hspares old hbefore)
    | verify old now hcall => rfl
    | enable enabled old hcall =>
        rw [DomainClaim.setUse_status]
        exact (hsound.enables (enabled, id) hcall).2 old hbefore
    | disable disabled old =>
        rw [DomainClaim.setUse_status]
        refine hsound.flags id old capability hbefore ?_
        rw [DomainClaim.uses_setUse] at huses
        split at huses
        · cases huses
        · exact huses

/-! ## The result -/

/-- Lookups return verified claims, whatever the run. -/
theorem lookup_verified {capability : Capability} {domain : String} {chosen : Option DomainClaim}
    {table : DomainTable} {found : TenantMatch}
    (hlookup : lookup capability domain chosen table = some (some found)) :
    ∃ claim ∈ table.rows, chosen = some claim ∧ claim.status = .verified ∧
      claim.domain = domain ∧ claim.tenantId = found.tenantId := by
  unfold lookup at hlookup
  split at hlookup
  · split at hlookup <;> cases hlookup
  · rename_i claim
    simp only [Option.ite_none_right_eq_some, Option.some.injEq] at hlookup
    obtain ⟨⟨hmem, hselectable⟩, rfl⟩ := hlookup
    simp only [selectable, Bool.and_eq_true, decide_eq_true_eq] at hselectable
    exact ⟨claim, hmem, rfl, hselectable.1.2, hselectable.1.1, rfl⟩

theorem resolveTenant_verified {domain : String} {chosen : Option DomainClaim}
    {table : DomainTable} {tenantId : String}
    (hresolve : resolveTenant domain chosen table = some (some tenantId)) :
    ∃ claim ∈ table.rows, chosen = some claim ∧ claim.status = .verified ∧
      claim.domain = domain ∧ claim.tenantId = tenantId := by
  obtain ⟨found, hlookup, hmap⟩ := Option.map_eq_some_iff.mp hresolve
  obtain ⟨tenantMatch, rfl, rfl⟩ := Option.map_eq_some_iff.mp hmap
  exact lookup_verified hlookup

/-- **Verified is absorbing**: in every run that marks no verified claim failed,
a claim that has become verified is verified for as long as it exists, and only
verified claims are in use; and in every run the lookups return verified claims
only. -/
theorem verified_absorbing (first rest : List Action) (before after : State)
    (hfirst : run first = some before) (hrun : run (first ++ rest) = some after) :
    ((∀ state action next, Taken (first ++ rest) state action next →
        SparesVerified state action) →
      (∀ id claim, before.table.get? id = some claim → claim.status = .verified →
        ∀ later, after.table.get? id = some later → later.status = .verified) ∧
      (∀ id claim capability, after.table.get? id = some claim →
        claim.uses capability = true → claim.status = .verified)) ∧
    ∀ (domain : String) (chosen : Option DomainClaim),
      (∀ found, lookupEmailDomain domain chosen after.table = some (some found) →
        ∃ claim ∈ after.table.rows, chosen = some claim ∧ claim.status = .verified ∧
          claim.domain = domain ∧ claim.tenantId = found.tenantId) ∧
      (∀ found, lookupRoutingDomain domain chosen after.table = some (some found) →
        ∃ claim ∈ after.table.rows, chosen = some claim ∧ claim.status = .verified ∧
          claim.domain = domain ∧ claim.tenantId = found.tenantId) ∧
      (∀ tenantId, resolveTenant domain chosen after.table = some (some tenantId) →
        ∃ claim ∈ after.table.rows, chosen = some claim ∧ claim.status = .verified ∧
          claim.domain = domain ∧ claim.tenantId = tenantId) := by
  constructor
  · intro hspares
    have hfirstSound : Sound before :=
      Machine.run_invariant_of_allowed Sound SparesVerified (fun _ _ _ => step_sound) sound_initial
        (fun state action next htaken => hspares state action next (htaken.append_right rest))
        hfirst
    have hsound : Sound after :=
      Machine.run_invariant_of_allowed Sound SparesVerified (fun _ _ _ => step_sound) sound_initial
        hspares hrun
    refine ⟨?_, hsound.flags⟩
    intro id claim hget hstatus
    obtain ⟨middle, hmiddle, hrest⟩ := Machine.run_append_eq_some.mp hrun
    obtain rfl : before = middle := Option.some.inj (hfirst.symm.trans hmiddle)
    -- from the state in between on, the claim is absorbed
    have habsorbed : Absorbed id before := by
      refine ⟨hfirstSound.stored id claim hget, fun other hother => ?_⟩
      rw [hget, Option.some.injEq] at hother
      exact hother ▸ hstatus
    exact (Machine.run_invariant_of_allowed (Absorbed id) SparesVerified
      (fun _ _ _ => step_absorbed) habsorbed
      (fun state action next htaken => hspares state action next (htaken.append hfirst))
      hrest).2
  · intro domain chosen
    exact ⟨fun _ => lookup_verified, fun _ => lookup_verified, fun _ => resolveTenant_verified⟩

/-! ## Runs on fixed inputs -/

/-- A call of `verify` has proved the claim within the 48 hours, and another one,
which read it later, has found it expired. -/
def racingVerifies : List Action :=
  [.register "acme" "example.com" (ofSecs 1767225600),
    .insert "acme" "example.com" "01A" "token" (ofSecs 1767225600),
    .verify "01A" (ofSecs 1767398400),
    .verify "01A" (ofSecs 1767398401),
    .resolveTxt "01A" "example.com" "token" (some ["token"]),
    .markVerified "01A" (ofSecs 1767398402),
    .requireVerified .routing "01A",
    .enable .routing "01A"]

/-- The second call marks the verified claim failed, and it is still in use. -/
theorem verified_claim_marked_failed :
    ∃ before after claim later, run racingVerifies = some before ∧
      run (racingVerifies ++ [.markFailed "01A"]) = some after ∧
      before.table.get? "01A" = some claim ∧ claim.status = .verified ∧
      after.table.get? "01A" = some later ∧ later.status = .failed ∧
      later.useForRouting = true := by
  have hbefore : (run racingVerifies).any (fun state => (state.table.get? "01A").any fun claim =>
      decide (claim.status = .verified)) = true := by
    decide
  have hafter : (run (racingVerifies ++ [.markFailed "01A"])).any (fun state =>
      (state.table.get? "01A").any fun claim =>
        decide (claim.status = .failed ∧ claim.useForRouting = true)) = true := by
    decide
  obtain ⟨before, hfirst, hclaim⟩ := (Option.any_eq_true _ _).mp hbefore
  obtain ⟨claim, hget, hstatus⟩ := (Option.any_eq_true _ _).mp hclaim
  obtain ⟨after, hrun, hlater⟩ := (Option.any_eq_true _ _).mp hafter
  obtain ⟨later, hgetLater, hfailed⟩ := (Option.any_eq_true _ _).mp hlater
  exact ⟨before, after, claim, later, hfirst, hrun, hget, of_decide_eq_true hstatus, hgetLater,
    of_decide_eq_true hfailed⟩

/-- Without the second call's update the claim stays verified. -/
theorem racingVerifies_verified :
    ∃ before after, run racingVerifies = some before ∧
      run (racingVerifies ++ [.disable .routing "01A"]) = some after ∧
      (∀ claim, before.table.get? "01A" = some claim → claim.status = .verified →
        ∀ later, after.table.get? "01A" = some later → later.status = .verified) ∧
      ∀ found, lookupRoutingDomain "example.com" (before.table.get? "01A") before.table =
        some (some found) → ∃ claim ∈ before.table.rows, before.table.get? "01A" = some claim ∧
          claim.status = .verified ∧ claim.domain = "example.com" ∧
          claim.tenantId = found.tenantId := by
  have hbefore : (run racingVerifies).isSome = true := by decide
  have hafter : (run (racingVerifies ++ [.disable .routing "01A"])).isSome = true := by
    decide
  obtain ⟨before, hfirst⟩ := Option.isSome_iff_exists.mp hbefore
  obtain ⟨after, hrun⟩ := Option.isSome_iff_exists.mp hafter
  refine ⟨before, after, hfirst, hrun, ?_, ?_⟩
  · exact ((verified_absorbing racingVerifies [.disable .routing "01A"] before after hfirst hrun).1
      (Machine.forall_taken_of_checks (by decide))).1 "01A"
  · exact ((verified_absorbing racingVerifies [] before before hfirst
      (by rw [List.append_nil, hfirst])).2 "example.com" (before.table.get? "01A")).2.1

end Modo.Tenants
