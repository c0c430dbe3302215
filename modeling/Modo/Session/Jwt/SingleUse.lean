import Modo.Session.Jwt.Service

/-!
# Is a refresh token single-use?

`JwtSessionService::rotate` reads the session by the hash of the presented token
and later replaces the token of the row it has read, by id.  Between the two
statements other calls run, so a second call may have read the same row.  Both
then replace its token, both return a pair, and only the last pair is accepted
(`doubleRotate_not_single_use`).

A run interleaves the two halves of any number of calls with the other
statements of the service.  `StillCurrent` is what a call would have to find when
it replaces the token: the row still has the token that was presented.  In runs
whose replacements all find this, `Spent` holds: a token that was presented with
success resolves to nothing, so it is presented with success once, and the token
of every returned pair resolves until it is presented itself or its session is
deleted (`single_use`).
-/

namespace Modo.Sessions.Jwt

/-- A call of `rotate` that has read its session. -/
structure Call where
  number : ℕ
  presented : SessionToken
  session : SessionData
  deriving DecidableEq

/-- A call of `rotate` that has returned a pair. -/
structure Rotation where
  presented : SessionToken
  sessionId : String
  issued : SessionToken
  pair : TokenPair

/-- The store, the calls under way and the calls that have succeeded. -/
structure State where
  store : StoreState
  calls : List Call
  rotations : List Rotation

/-- The empty store, and no call. -/
def State.initial : State := ⟨.initial, [], []⟩

/-- The steps of the service. -/
inductive Action where
  /-- A statement of `authenticate`, `logout`, `revoke`, `revoke_all`,
  `revoke_all_except` or `cleanup_expired`. -/
  | statement (statement : Statement)
  /-- The first half of `rotate`: decode, and read the session. -/
  | present (number : ℕ) (parsed : Except JwtError Claims) (read : ReadCall)
  /-- The second half of `rotate`: replace the token, and mint the pair. -/
  | replace (call : Call) (write : WriteCall)

/-- The statement replaces a token. -/
def isRotate : Statement → Bool
  | .rotateToken _ _ _ => true
  | _ => false

variable {sha256 : List UInt8 → String} {config : JwtSessionsConfig}

/-- One step. -/
def step (sha256 : List UInt8 → String) (config : JwtSessionsConfig) (state : State) :
    Action → Option State
  | .statement statement =>
      if isRotate statement then none
      else (execute sha256 state.store statement).map fun store => { state with store := store }
  | .present number parsed read =>
      match rotateRead sha256 config parsed read state.store.table with
      | .error _ => some state
      | .ok (token, session) =>
          some { state with calls := ⟨number, token, session⟩ :: state.calls }
  | .replace call write =>
      if call ∉ state.calls ∨ write.token ∈ state.store.tokens then none
      else
        let tokens := write.token :: state.store.tokens
        let calls := state.calls.erase call
        match rotateWrite sha256 config call.session write state.store.table with
        | none =>
            some { state with store := { state.store with tokens := tokens }, calls := calls }
        | some (table, pair) =>
            some
              { store := { state.store with table := table, tokens := tokens }
                calls := calls
                rotations :=
                  state.rotations ++ [⟨call.presented, call.session.id, write.token, pair⟩] }

/-- Play a list of actions. -/
abbrev run (sha256 : List UInt8 → String) (config : JwtSessionsConfig) :
    State → List Action → Option State :=
  Machine.run (step sha256 config)

/-- One step of a run. -/
abbrev Taken (sha256 : List UInt8 → String) (config : JwtSessionsConfig) :
    State → List Action → State → Action → State → Prop :=
  Machine.Taken (step sha256 config)

/-! ## The invariant -/

/-- A call that replaces a token finds it still the token of the session it has
read. -/
def StillCurrent (sha256 : List UInt8 → String) (state : State) : Action → Prop
  | .replace call _ => resolve sha256 state.store.table call.presented = some call.session.id
  | _ => True

instance (state : State) : (action : Action) → Decidable (StillCurrent sha256 state action)
  | .replace call _ => inferInstanceAs
      (Decidable (resolve sha256 state.store.table call.presented = some call.session.id))
  | .statement _ | .present _ _ _ => .isTrue trivial

/-- The token of a returned pair is accepted, or it has been presented itself,
or its session is gone. -/
def Accepted (sha256 : List UInt8 → String) (state : State) (rotation : Rotation) : Prop :=
  resolve sha256 state.store.table rotation.issued = some rotation.sessionId ∨
    (∃ later ∈ state.rotations, later.presented = rotation.issued) ∨
    state.store.table.get? rotation.sessionId = none

/-- Presented tokens are used up, and issued ones are good. -/
structure Spent (sha256 : List UInt8 → String) (state : State) : Prop where
  issued : Issued sha256 state.store
  once : state.rotations.Pairwise fun first second => first.presented ≠ second.presented
  /-- A token that was presented with success resolves to nothing. -/
  spent : ∀ rotation ∈ state.rotations, rotation.presented ∈ state.store.tokens ∧
    ∀ id, resolve sha256 state.store.table rotation.presented ≠ some id
  /-- The session of a rotation was issued. -/
  session : ∀ rotation ∈ state.rotations, rotation.sessionId ∈ state.store.ids
  accepted : ∀ rotation ∈ state.rotations, Accepted sha256 state rotation

theorem spent_initial : Spent sha256 .initial :=
  ⟨issued_initial, List.Pairwise.nil, by simp [State.initial], by simp [State.initial],
    by simp [State.initial]⟩

/-- One statement that replaces no token leaves every session its token or
deletes it. -/
theorem resolve_execute {store next : StoreState} {statement : Statement}
    (hkeep : isRotate statement = false) (hstep : execute sha256 store statement = some next)
    {token : SessionToken} {id : String} (hresolve : resolve sha256 store.table token = some id) :
    resolve sha256 next.table token = some id ∨ next.table.get? id = none := by
  obtain ⟨row, hget, hhash⟩ := resolve_eq_some.mp hresolve
  have hrow := execute_rowStep hstep id
  rw [hget] at hrow
  generalize hafter : next.table.get? id = after at hrow ⊢
  cases hrow with
  | same => exact Or.inl (resolve_eq_some.mpr ⟨row, hafter, hhash⟩)
  | rotate _ fresh now hrotate =>
      subst hrotate
      cases hkeep
  | update _ row' hsame => exact Or.inl (resolve_eq_some.mpr ⟨row', hafter, hsame.trans hhash⟩)
  | delete => exact Or.inr rfl

/-- A change of the calls alone. -/
theorem Spent.setCalls {state : State} (hspent : Spent sha256 state) (calls : List Call) :
    Spent sha256 { state with calls := calls } :=
  ⟨hspent.issued, hspent.once, hspent.spent, hspent.session, hspent.accepted⟩

/-- A token that is drawn and not used. -/
theorem Spent.addToken {state : State} (hspent : Spent sha256 state) (token : SessionToken) :
    Spent sha256
      { state with store := { state.store with tokens := token :: state.store.tokens } } := by
  refine ⟨hspent.issued.mono (fun _ => id) (fun _ => List.mem_cons_of_mem token), hspent.once, ?_,
    hspent.session, hspent.accepted⟩
  intro rotation hmem
  obtain ⟨htoken, hnone⟩ := hspent.spent rotation hmem
  exact ⟨List.mem_cons_of_mem _ htoken, hnone⟩

theorem statement_spent (hinj : Function.Injective (SessionToken.hash sha256)) {state : State}
    (hspent : Spent sha256 state) {statement : Statement} {store : StoreState}
    (hkeep : isRotate statement = false)
    (hstep : execute sha256 state.store statement = some store) :
    Spent sha256 { state with store := store } := by
  have hrun : executeAll sha256 state.store [statement] = some store :=
    Machine.run_singleton_eq_some.mpr hstep
  obtain ⟨hids, htokens⟩ := execute_issued_mono hstep
  refine ⟨execute_issued hspent.issued hstep, hspent.once, ?_, ?_, ?_⟩
  · intro rotation hmem
    obtain ⟨htoken, hnone⟩ := hspent.spent rotation hmem
    exact ⟨htokens _ htoken, executeAll_resolve_eq_none hinj hrun htoken hnone⟩
  · exact fun rotation hmem => hids _ (hspent.session rotation hmem)
  · intro rotation hmem
    rcases hspent.accepted rotation hmem with hresolve | hlater | hgone
    · exact (resolve_execute hkeep hstep hresolve).imp_right Or.inr
    · exact Or.inr (Or.inl hlater)
    · exact Or.inr (Or.inr
        (executeAll_get?_eq_none hrun (hspent.session rotation hmem) hgone))

/-- A replacement that finds the presented token still current uses it up. -/
theorem replace_spent (hinj : Function.Injective (SessionToken.hash sha256)) {state : State}
    (hspent : Spent sha256 state) {call : Call} {token : SessionToken} {now : DateTime}
    {table : SessionTable} {pair : TokenPair} (hfresh : token ∉ state.store.tokens)
    (hcurrent : resolve sha256 state.store.table call.presented = some call.session.id)
    (hrotate : rotateToken call.session.id (token.hash sha256) now state.store.table =
      some table) :
    Spent sha256
      { store := { state.store with table := table, tokens := token :: state.store.tokens }
        calls := state.calls.erase call
        rotations := state.rotations ++ [⟨call.presented, call.session.id, token, pair⟩] } := by
  -- the step of the store is one statement of its machine
  have hexecute : execute sha256 state.store (.rotateToken call.session.id token now) =
      some { state.store with table := table, tokens := token :: state.store.tokens } := by
    simp only [execute, hfresh, if_false, hrotate, Option.getD_some]
  have hrun : executeAll sha256 state.store [.rotateToken call.session.id token now] = some _ :=
    Machine.run_singleton_eq_some.mpr hexecute
  obtain ⟨hnew, hold⟩ := execute_rotateToken hinj hspent.issued hcurrent hexecute
  have hpresented : call.presented ∈ state.store.tokens :=
    hspent.issued.mem_tokens hinj hcurrent
  obtain ⟨row, hget, hhash⟩ := resolve_eq_some.mp hcurrent
  refine ⟨execute_issued hspent.issued hexecute, ?_, ?_, ?_, ?_⟩
  · rw [List.pairwise_append]
    refine ⟨hspent.once, by simp, ?_⟩
    intro first hfirst second hsecond heq
    rw [List.mem_singleton] at hsecond
    subst hsecond
    exact (hspent.spent first hfirst).2 call.session.id (heq ▸ hcurrent)
  · intro rotation hmem
    rw [List.mem_append, List.mem_singleton] at hmem
    rcases hmem with hbefore | rfl
    · obtain ⟨htoken, hnone⟩ := hspent.spent rotation hbefore
      exact ⟨List.mem_cons_of_mem _ htoken, executeAll_resolve_eq_none hinj hrun htoken hnone⟩
    · exact ⟨List.mem_cons_of_mem _ hpresented, hold⟩
  · intro rotation hmem
    rw [List.mem_append, List.mem_singleton] at hmem
    rcases hmem with hbefore | rfl
    · exact hspent.session rotation hbefore
    · exact hspent.issued.ids call.session.id row hget
  · intro rotation hmem
    rw [List.mem_append, List.mem_singleton] at hmem
    rcases hmem with hbefore | rfl
    · rcases hspent.accepted rotation hbefore with hresolve | ⟨later, hlater, heq⟩ | hgone
      · by_cases hsession : rotation.sessionId = call.session.id
        · -- the row had the token of this rotation, so it is the one presented now
          have hsame : call.presented = rotation.issued :=
            resolve_unique hinj hcurrent (hsession ▸ hresolve)
          exact Or.inr (Or.inl ⟨_, List.mem_append_right _ List.mem_cons_self, hsame⟩)
        · left
          obtain ⟨other, hother, hotherHash⟩ := resolve_eq_some.mp hresolve
          refine resolve_eq_some.mpr ⟨other, ?_, hotherHash⟩
          show table.get? rotation.sessionId = some other
          rw [get?_rotateToken hrotate, if_neg hsession, hother]
      · exact Or.inr (Or.inl ⟨later, List.mem_append_left _ hlater, heq⟩)
      · exact Or.inr (Or.inr
          (executeAll_get?_eq_none hrun (hspent.session rotation hbefore) hgone))
    · exact Or.inl hnew

theorem step_spent (hinj : Function.Injective (SessionToken.hash sha256)) {state next : State}
    {action : Action} (hspent : Spent sha256 state) (hcurrent : StillCurrent sha256 state action)
    (hstep : step sha256 config state action = some next) : Spent sha256 next := by
  cases action with
  | statement statement =>
      simp only [step] at hstep
      split at hstep
      · cases hstep
      · rename_i hkeep
        obtain ⟨store, hexecute, rfl⟩ := Option.map_eq_some_iff.mp hstep
        exact statement_spent hinj hspent (by simpa using hkeep) hexecute
  | present number parsed read =>
      simp only [step] at hstep
      split at hstep
      · rw [Option.some.injEq] at hstep
        exact hstep ▸ hspent
      · rw [Option.some.injEq] at hstep
        exact hstep ▸ hspent.setCalls _
  | replace call write =>
      have hfound : resolve sha256 state.store.table call.presented = some call.session.id :=
        hcurrent
      simp only [step] at hstep
      split at hstep
      · cases hstep
      rename_i hfresh
      rw [not_or] at hfresh
      split at hstep
      · rw [Option.some.injEq] at hstep
        exact hstep ▸ (hspent.addToken write.token).setCalls _
      · rename_i table pair hwrite
        rw [Option.some.injEq] at hstep
        subst hstep
        exact replace_spent hinj hspent hfresh.2 hfound (rotateWrite_eq_some hwrite).2.1

/-- **When refresh tokens are single-use.**  In every interleaving of the
service's calls in which each `rotate` finds the presented token still current
when it replaces it, at most one call that presents a given token returns a
pair, and the token of every returned pair is accepted until it is presented
itself or its session is deleted. -/
theorem single_use (hinj : Function.Injective (SessionToken.hash sha256))
    {actions : List Action} {state : State}
    (hcurrent : ∀ before action after,
      Taken sha256 config .initial actions before action after → StillCurrent sha256 before action)
    (hrun : run sha256 config .initial actions = some state) :
    (state.rotations.Pairwise fun first second => first.presented ≠ second.presented) ∧
    ∀ rotation ∈ state.rotations,
      resolve sha256 state.store.table rotation.issued = some rotation.sessionId ∨
        (∃ later ∈ state.rotations, later.presented = rotation.issued) ∨
        state.store.table.get? rotation.sessionId = none := by
  have hspent : Spent sha256 state :=
    Machine.run_invariant_of_allowed (Spent sha256) (StillCurrent sha256)
      (fun _ _ _ => step_spent hinj) spent_initial hcurrent hrun
  exact ⟨hspent.once, hspent.accepted⟩

/-! ### One session, two calls -/

/-- The first token of a session. -/
def loginStatement : Statement :=
  .insert 2592000 ⟨none, none, none, none, none⟩ "user" none "session" (sampleToken 0)
    (.ofSecs 1767225600)

/-- The session of `loginStatement`. -/
def loginSession : SessionData :=
  newSession 2592000 ⟨none, none, none, none, none⟩ "user" none "session" (.ofSecs 1767225600)

/-- The refresh token of the first pair. -/
def firstRefresh : Claims :=
  (mintPair {} "user" (sampleToken 0) (mintAt 1767225600)).refreshToken

/-- Call `number` presents the first refresh token. -/
def presentFirst (number : ℕ) : Action :=
  .present number (.ok firstRefresh) ⟨.ofSecs 1767225700, .ofSecs 1767225700, true⟩

/-- Call `number` replaces it. -/
def replaceFirst (number : ℕ) (token : SessionToken) : Action :=
  .replace ⟨number, sampleToken 0, loginSession⟩
    ⟨token, .ofSecs 1767225701, true, mintAt 1767225701⟩

/-- A call reads and replaces before the next one reads. -/
def rotateRun : List Action :=
  [.statement loginStatement, presentFirst 1, replaceFirst 1 (sampleToken 1), presentFirst 2]

/-- Only the first call of `rotateRun` returns a pair, and its token resolves. -/
theorem rotateRun_single_use : ∃ state,
    run sampleSha256 {} .initial rotateRun = some state ∧
    (state.rotations.Pairwise fun first second => first.presented ≠ second.presented) ∧
    state.rotations.map Rotation.presented = [sampleToken 0] ∧
    resolve sampleSha256 state.store.table (sampleToken 1) = some "session" := by
  have hends : (run sampleSha256 {} .initial rotateRun).any (fun state => decide
      (state.rotations.map Rotation.presented = [sampleToken 0] ∧
        resolve sampleSha256 state.store.table (sampleToken 1) = some "session")) = true := by
    decide +kernel
  obtain ⟨state, hrun, hends⟩ := Machine.exists_final hends
  have hcurrent := Machine.forall_taken_of_checks
    (show Machine.checks (step sampleSha256 {}) (StillCurrent sampleSha256) .initial rotateRun =
      true by decide +kernel)
  exact ⟨state, hrun, (single_use sampleHash_injective hcurrent hrun).1, hends⟩

/-- Both calls read before either replaces. -/
def doubleRotate : List Action :=
  [.statement loginStatement, presentFirst 1, presentFirst 2, replaceFirst 1 (sampleToken 1),
   replaceFirst 2 (sampleToken 2)]

/-- Both calls of `doubleRotate` return a pair for the same token, and the pair
of the first is not accepted afterwards. -/
theorem doubleRotate_not_single_use : ∃ state,
    run sampleSha256 {} .initial doubleRotate = some state ∧
    state.rotations.map Rotation.presented = [sampleToken 0, sampleToken 0] ∧
    ¬ (state.rotations.Pairwise fun first second => first.presented ≠ second.presented) ∧
    resolve sampleSha256 state.store.table (sampleToken 1) = none ∧
    resolve sampleSha256 state.store.table (sampleToken 2) = some "session" := by
  have hends : (run sampleSha256 {} .initial doubleRotate).any (fun state => decide
      (state.rotations.map Rotation.presented = [sampleToken 0, sampleToken 0] ∧
        resolve sampleSha256 state.store.table (sampleToken 1) = none ∧
        resolve sampleSha256 state.store.table (sampleToken 2) = some "session")) = true := by
    decide +kernel
  obtain ⟨state, hrun, hends⟩ := Machine.exists_final hends
  refine ⟨state, hrun, hends.1, ?_, hends.2⟩
  intro hpairwise
  rw [← List.pairwise_map (f := Rotation.presented) (R := (· ≠ ·)), hends.1] at hpairwise
  simp at hpairwise

end Modo.Sessions.Jwt
