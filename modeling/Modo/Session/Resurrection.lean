import Modo.Lib.Machine
import Modo.Session.Store

/-!
# Runs of the store's statements

Any number of requests share the session table, and each of them issues the
statements of the store in whatever order its code does, possibly long after it
has read the session.  So a run here is any sequence of statements with any
arguments, and the only thing asked of it is that the ids and the tokens of
`create` and of the rotates are fresh, as ULIDs and random tokens are.

* `RowStep` says what one statement can do to the row under an id: only an
  insert makes a row, only a rotate changes its hash, and both bring a token
  that was never used before.
* `Issued` is the invariant: every row's id has been issued, and its hash is the
  hash of an issued token.
* `no_resurrection` is the result: a deleted session never resolves again, a
  replaced token never resolves again, and one token at most resolves to each
  session.
-/

namespace Modo.Sessions

/-- A statement of the store. -/
inductive Statement where
  /-- The insert of `create`. -/
  | insert (ttlSecs : ℕ) (info : ClientInfo) (userId : String) (data : Option Json) (id : String)
      (token : SessionToken) (now : DateTime)
  /-- The trim of `create`. -/
  | trim (userId : String) (now : DateTime) (max : ℕ) (victims : List Row)
  | readByToken (token : SessionToken) (now : DateTime)
  | readByTokenHash (hash : String) (now : DateTime)
  /-- `rotate_token` and `rotate_token_to`. -/
  | rotateToken (id : String) (token : SessionToken) (now : DateTime)
  | flush (id : String) (data : Json) (now expiresAt : DateTime)
  | touch (id : String) (now expiresAt : DateTime)
  | destroy (id : String)
  | destroyAllForUser (userId : String)
  | destroyAllExcept (userId keepId : String)
  | cleanupExpired (now : DateTime)

/-- The table, and the ids and tokens issued so far. -/
structure StoreState where
  table : SessionTable
  ids : List String
  tokens : List SessionToken

/-- The empty store. -/
def StoreState.initial : StoreState := ⟨Table.empty, [], []⟩

variable {sha256 : List UInt8 → String}

/-- One statement.  It is `none` when an id or a token is not fresh, or when the
victims of a trim are not an answer of its `SELECT`. -/
def execute (sha256 : List UInt8 → String) (state : StoreState) : Statement → Option StoreState
  | .insert ttlSecs info userId data id token now =>
      if id ∈ state.ids ∨ token ∈ state.tokens then none
      else
        let row := ⟨token.hash sha256, newSession ttlSecs info userId data id now⟩
        some ⟨(state.table.insert row).getD state.table, id :: state.ids, token :: state.tokens⟩
  | .trim userId now max victims =>
      (trim userId now max victims state.table).map fun table => { state with table := table }
  | .readByToken _ _ | .readByTokenHash _ _ => some state
  | .rotateToken id token now =>
      if token ∈ state.tokens then none
      else
        let table := (rotateToken id (token.hash sha256) now state.table).getD state.table
        some { state with table := table, tokens := token :: state.tokens }
  | .flush id data now expiresAt =>
      some { state with table := flush id data now expiresAt state.table }
  | .touch id now expiresAt => some { state with table := touch id now expiresAt state.table }
  | .destroy id => some { state with table := destroy id state.table }
  | .destroyAllForUser userId => some { state with table := destroyAllForUser userId state.table }
  | .destroyAllExcept userId keepId =>
      some { state with table := destroyAllExcept userId keepId state.table }
  | .cleanupExpired now => some { state with table := cleanupExpired now state.table }

/-- Execute a list of statements. -/
abbrev executeAll (sha256 : List UInt8 → String) :
    StoreState → List Statement → Option StoreState :=
  Machine.run (execute sha256)

/-! ## What a statement does to one row -/

/-- Everything one statement can do to the row under `id`. -/
inductive RowStep (sha256 : List UInt8 → String) (state next : StoreState) (statement : Statement)
    (id : String) : Option Row → Option Row → Prop
  | same (row : Option Row) : RowStep sha256 state next statement id row row
  | insert (row : Row) (token : SessionToken) (hid : id ∉ state.ids) (hissued : id ∈ next.ids)
      (hfresh : token ∉ state.tokens) (htoken : token ∈ next.tokens)
      (hhash : row.tokenHash = token.hash sha256) :
      RowStep sha256 state next statement id none (some row)
  | rotate (row : Row) (token : SessionToken) (now : DateTime)
      (hrotate : statement = .rotateToken id token now) (hfresh : token ∉ state.tokens)
      (htoken : token ∈ next.tokens) :
      RowStep sha256 state next statement id (some row)
        (some (row.setToken (token.hash sha256) now))
  | update (row row' : Row) (hhash : row'.tokenHash = row.tokenHash) :
      RowStep sha256 state next statement id (some row) (some row')
  | delete (row : Option Row) : RowStep sha256 state next statement id row none

/-- An update of one row that leaves the hash alone. -/
theorem rowStep_of_update {state next : StoreState} {statement : Statement} {id k : String}
    (f : Row → Row)
    (hhash : ∀ row, (f row).tokenHash = row.tokenHash)
    (hnext : next.table.get? k =
      if k = id then (state.table.get? k).map f else state.table.get? k) :
    RowStep sha256 state next statement k (state.table.get? k) (next.table.get? k) := by
  rw [hnext]
  split
  · cases state.table.get? k with
    | none => exact .same none
    | some row => exact .update row (f row) (hhash row)
  · exact .same _

theorem rowStep_of_delete {state next : StoreState} {statement : Statement} {k : String}
    (hnext : next.table.get? k = state.table.get? k ∨ next.table.get? k = none) :
    RowStep sha256 state next statement k (state.table.get? k) (next.table.get? k) := by
  rcases hnext with hsame | hnone
  · rw [hsame]
    exact .same _
  · rw [hnone]
    exact .delete _

/-- **One statement changes the row under an id in one of the ways of
`RowStep`.** -/
theorem execute_rowStep {state next : StoreState} {statement : Statement}
    (hstep : execute sha256 state statement = some next) (k : String) :
    RowStep sha256 state next statement k (state.table.get? k) (next.table.get? k) := by
  cases statement with
  | insert ttlSecs info userId data id token now =>
      simp only [execute] at hstep
      split at hstep
      · cases hstep
      rename_i hfresh
      rw [not_or] at hfresh
      rw [Option.some.injEq] at hstep
      subst hstep
      cases hinsert : state.table.insert
          ⟨token.hash sha256, newSession ttlSecs info userId data id now⟩ with
      -- the id or the hash is taken, and the insert fails
      | none => exact .same _
      | some table =>
          rw [Option.getD_some]
          by_cases hk : id = k
          · subst hk
            have hnone : state.table.get? id = none := Table.get?_eq_none_of_insert hinsert
            have hsome := Table.get?_insert hinsert id
            rw [if_pos (show Row.id ⟨token.hash sha256,
              newSession ttlSecs info userId data id now⟩ = id from rfl)] at hsome
            rw [hnone, hsome]
            exact .insert _ token hfresh.1 List.mem_cons_self hfresh.2 List.mem_cons_self rfl
          · have hsame := Table.get?_insert hinsert k
            rw [if_neg (show Row.id ⟨token.hash sha256,
              newSession ttlSecs info userId data id now⟩ ≠ k from hk)] at hsame
            rw [hsame]
            exact .same _
  | trim userId now max victims =>
      simp only [execute, Option.map_eq_some_iff] at hstep
      obtain ⟨table, htrim, rfl⟩ := hstep
      apply rowStep_of_delete
      rw [get?_trim htrim]
      split
      · exact Or.inr rfl
      · exact Or.inl rfl
  | readByToken token now =>
      simp only [execute, Option.some.injEq] at hstep
      subst hstep
      exact .same _
  | readByTokenHash hash now =>
      simp only [execute, Option.some.injEq] at hstep
      subst hstep
      exact .same _
  | rotateToken id token now =>
      simp only [execute] at hstep
      split at hstep
      · cases hstep
      rename_i hfresh
      rw [Option.some.injEq] at hstep
      subst hstep
      cases hrotate : rotateToken id (token.hash sha256) now state.table with
      | none => exact .same _
      | some table =>
          rw [Option.getD_some, get?_rotateToken hrotate]
          split
          · rename_i hk
            subst hk
            -- without a row under the id, the update changes nothing
            cases state.table.get? k with
            | none => exact .same none
            | some row => exact .rotate row token now rfl hfresh List.mem_cons_self
          · exact .same _
  | flush id data now expiresAt =>
      simp only [execute, Option.some.injEq] at hstep
      subst hstep
      exact rowStep_of_update (Row.setData data now expiresAt) (fun _ => rfl)
        (get?_flush id data now expiresAt state.table k)
  | touch id now expiresAt =>
      simp only [execute, Option.some.injEq] at hstep
      subst hstep
      exact rowStep_of_update (Row.setTouched now expiresAt) (fun _ => rfl)
        (get?_touch id now expiresAt state.table k)
  | destroy _ | destroyAllForUser _ | destroyAllExcept _ _ | cleanupExpired _ =>
      simp only [execute, Option.some.injEq] at hstep
      subst hstep
      exact rowStep_of_delete (get?_delete_cases _ _ _)

/-! ## What no statement changes -/

/-- What `create` sets and nothing updates. -/
structure Origin where
  userId : String
  ipAddress : String
  userAgent : String
  deviceName : String
  deviceType : String
  fingerprint : String
  createdAt : DateTime

/-- The origin of a session. -/
def SessionData.origin (session : SessionData) : Origin where
  userId := session.userId
  ipAddress := session.ipAddress
  userAgent := session.userAgent
  deviceName := session.deviceName
  deviceType := session.deviceType
  fingerprint := session.fingerprint
  createdAt := session.createdAt

/-- A row has the origin it had before the statement, or the statement inserts it. -/
theorem execute_origin {state next : StoreState} {statement : Statement}
    (hstep : execute sha256 state statement = some next) {id : String} {row : Row}
    (hget : next.table.get? id = some row) :
    (∃ old, state.table.get? id = some old ∧ old.session.origin = row.session.origin) ∨
      ∃ ttlSecs info userId data token now,
        statement = .insert ttlSecs info userId data id token now ∧
          id ∉ state.ids ∧ token ∉ state.tokens ∧
          row = ⟨token.hash sha256, newSession ttlSecs info userId data id now⟩ := by
  have hupdated : ∀ {key : String} {f : Row → Row},
      (if id = key then (state.table.get? id).map f else state.table.get? id) = some row →
      (∀ old, (f old).session.origin = old.session.origin) →
      ∃ old, state.table.get? id = some old ∧ old.session.origin = row.session.origin := by
    intro key f hrow hkeeps
    split at hrow
    · obtain ⟨old, hold, rfl⟩ := Option.map_eq_some_iff.mp hrow
      exact ⟨old, hold, (hkeeps old).symm⟩
    · exact ⟨row, hrow, rfl⟩
  have hdeleted : ∀ p : Row → Bool, (state.table.delete p).get? id = some row →
      ∃ old, state.table.get? id = some old ∧ old.session.origin = row.session.origin := by
    intro p hrow
    rcases get?_delete_cases p state.table id with hsame | hnone
    · exact ⟨row, hsame ▸ hrow, rfl⟩
    · cases hnone.symm.trans hrow
  cases statement with
  | insert ttlSecs info userId data key token now =>
      simp only [execute, Option.ite_none_left_eq_some, Option.some.injEq, not_or] at hstep
      obtain ⟨⟨hid, htoken⟩, rfl⟩ := hstep
      cases hinsert : state.table.insert
          ⟨token.hash sha256, newSession ttlSecs info userId data key now⟩ with
      | none =>
          rw [hinsert] at hget
          exact .inl ⟨row, hget, rfl⟩
      | some table =>
          simp only [hinsert, Option.getD_some] at hget
          rw [Table.get?_insert hinsert] at hget
          split at hget
          · rename_i hkey
            obtain rfl : key = id := hkey
            exact .inr ⟨ttlSecs, info, userId, data, token, now, rfl, hid, htoken,
              (Option.some.inj hget).symm⟩
          · exact .inl ⟨row, hget, rfl⟩
  | trim userId now max victims =>
      simp only [execute, Option.map_eq_some_iff] at hstep
      obtain ⟨table, htrim, rfl⟩ := hstep
      rw [get?_trim htrim] at hget
      split at hget
      · cases hget
      · exact .inl ⟨row, hget, rfl⟩
  | rotateToken key token now =>
      simp only [execute, Option.ite_none_left_eq_some, Option.some.injEq] at hstep
      obtain ⟨-, rfl⟩ := hstep
      cases hrotate : rotateToken key (token.hash sha256) now state.table with
      | none =>
          rw [hrotate] at hget
          exact .inl ⟨row, hget, rfl⟩
      | some table =>
          simp only [hrotate, Option.getD_some] at hget
          rw [get?_rotateToken hrotate] at hget
          exact .inl (hupdated hget fun _ => rfl)
  | flush key data now expiresAt =>
      cases hstep
      rw [get?_flush] at hget
      exact .inl (hupdated hget fun _ => rfl)
  | touch key now expiresAt =>
      cases hstep
      rw [get?_touch] at hget
      exact .inl (hupdated hget fun _ => rfl)
  | readByToken _ _ | readByTokenHash _ _ =>
      cases hstep
      exact .inl ⟨row, hget, rfl⟩
  | destroy _ | destroyAllForUser _ | destroyAllExcept _ _ | cleanupExpired _ =>
      cases hstep
      exact .inl (hdeleted _ hget)

/-! ## Issued ids and tokens -/

/-- A row's id has been issued, and its hash is that of an issued token. -/
structure Issued (sha256 : List UInt8 → String) (state : StoreState) : Prop where
  ids : ∀ id row, state.table.get? id = some row → id ∈ state.ids
  tokens : ∀ id row, state.table.get? id = some row →
    ∃ token ∈ state.tokens, row.tokenHash = token.hash sha256

theorem issued_initial : Issued sha256 .initial :=
  ⟨by simp [StoreState.initial], by simp [StoreState.initial]⟩

/-- Ids and tokens that are drawn and not used. -/
theorem Issued.mono {state : StoreState} (hissued : Issued sha256 state) {ids : List String}
    {tokens : List SessionToken} (hids : ∀ id ∈ state.ids, id ∈ ids)
    (htokens : ∀ token ∈ state.tokens, token ∈ tokens) :
    Issued sha256 ⟨state.table, ids, tokens⟩ := by
  refine ⟨fun id row hget => hids id (hissued.ids id row hget), ?_⟩
  intro id row hget
  obtain ⟨token, hmem, hhash⟩ := hissued.tokens id row hget
  exact ⟨token, htokens token hmem, hhash⟩

/-- Issued ids and tokens stay issued. -/
theorem execute_issued_mono {state next : StoreState} {statement : Statement}
    (hstep : execute sha256 state statement = some next) :
    (∀ id ∈ state.ids, id ∈ next.ids) ∧ ∀ token ∈ state.tokens, token ∈ next.tokens := by
  cases statement with
  | insert ttlSecs info userId data id token now =>
      simp only [execute] at hstep
      split at hstep
      · cases hstep
      rw [Option.some.injEq] at hstep
      subst hstep
      exact ⟨fun _ => List.mem_cons_of_mem _, fun _ => List.mem_cons_of_mem _⟩
  | rotateToken id token now =>
      simp only [execute] at hstep
      split at hstep
      · cases hstep
      rw [Option.some.injEq] at hstep
      subst hstep
      exact ⟨fun _ hid => hid, fun _ => List.mem_cons_of_mem _⟩
  | trim userId now max victims =>
      simp only [execute, Option.map_eq_some_iff] at hstep
      obtain ⟨table, -, rfl⟩ := hstep
      exact ⟨fun _ => id, fun _ => id⟩
  | _ =>
      simp only [execute, Option.some.injEq] at hstep
      subst hstep
      exact ⟨fun _ => id, fun _ => id⟩

theorem execute_issued {state next : StoreState} {statement : Statement}
    (hissued : Issued sha256 state) (hstep : execute sha256 state statement = some next) :
    Issued sha256 next := by
  obtain ⟨hids, htokens⟩ := execute_issued_mono hstep
  refine ⟨?_, ?_⟩
  · intro id row hget
    have hrow := execute_rowStep hstep id
    rw [hget] at hrow
    generalize hbefore : state.table.get? id = before at hrow
    cases hrow with
    | same => exact hids id (hissued.ids id row hbefore)
    | insert _ token hid hnew hfresh htoken hhash => exact hnew
    | rotate old token now hrotate hfresh htoken => exact hids id (hissued.ids id old hbefore)
    | update old _ hhash => exact hids id (hissued.ids id old hbefore)
  · intro id row hget
    have hrow := execute_rowStep hstep id
    rw [hget] at hrow
    generalize hbefore : state.table.get? id = before at hrow
    cases hrow with
    | same =>
        obtain ⟨token, hmem, hhash⟩ := hissued.tokens id row hbefore
        exact ⟨token, htokens token hmem, hhash⟩
    | insert _ token hid hnew hfresh htoken hhash => exact ⟨token, htoken, hhash⟩
    | rotate old token now hrotate hfresh htoken => exact ⟨token, htoken, rfl⟩
    | update old _ hsame =>
        obtain ⟨token, hmem, hhash⟩ := hissued.tokens id old hbefore
        exact ⟨token, htokens token hmem, hsame.trans hhash⟩

theorem executeAll_issued {statements : List Statement} {state : StoreState}
    (hrun : executeAll sha256 .initial statements = some state) : Issued sha256 state :=
  Machine.run_invariant (Issued sha256) (fun _ _ _ => execute_issued) issued_initial hrun

/-! ## No way back -/

/-- An id without row that has been issued gets no row again. -/
theorem executeAll_get?_eq_none {state final : StoreState} {statements : List Statement}
    (hrun : executeAll sha256 state statements = some final) {id : String}
    (hid : id ∈ state.ids) (hnone : state.table.get? id = none) :
    final.table.get? id = none := by
  suffices hinv : id ∈ final.ids ∧ final.table.get? id = none from hinv.2
  refine Machine.run_invariant (fun state => id ∈ state.ids ∧ state.table.get? id = none) ?_
    ⟨hid, hnone⟩ hrun
  rintro before statement after ⟨hissued, hgone⟩ hstep
  refine ⟨(execute_issued_mono hstep).1 id hissued, ?_⟩
  have hrow := execute_rowStep hstep id
  rw [hgone] at hrow
  generalize hafter : after.table.get? id = row at hrow
  cases hrow with
  | same => rfl
  | insert row token hfresh => exact absurd hissued hfresh
  | delete => rfl

/-- An issued token that belongs to no session never belongs to one again. -/
theorem executeAll_resolve_eq_none (hinj : Function.Injective (SessionToken.hash sha256))
    {state final : StoreState} {statements : List Statement}
    (hrun : executeAll sha256 state statements = some final) {token : SessionToken}
    (htoken : token ∈ state.tokens) (hnone : ∀ id, resolve sha256 state.table token ≠ some id) :
    ∀ id, resolve sha256 final.table token ≠ some id := by
  suffices hinv : token ∈ final.tokens ∧ ∀ id, resolve sha256 final.table token ≠ some id from
    hinv.2
  refine Machine.run_invariant
    (fun state => token ∈ state.tokens ∧ ∀ id, resolve sha256 state.table token ≠ some id) ?_
    ⟨htoken, hnone⟩ hrun
  rintro before statement after ⟨hissued, hgone⟩ hstep
  refine ⟨(execute_issued_mono hstep).2 token hissued, ?_⟩
  intro id hresolve
  obtain ⟨row, hget, hhash⟩ := resolve_eq_some.mp hresolve
  have hrow := execute_rowStep hstep id
  rw [hget] at hrow
  generalize hbefore : before.table.get? id = old at hrow
  cases hrow with
  | same => exact hgone id (resolve_eq_some.mpr ⟨row, hbefore, hhash⟩)
  | insert _ fresh hid hnew hfresh hmem hfreshHash =>
      have hsame : fresh = token := hinj (hfreshHash.symm.trans hhash)
      exact hfresh (hsame ▸ hissued)
  | rotate old fresh now hrotate hfresh hmem =>
      have hsame : fresh = token := hinj hhash
      exact hfresh (hsame ▸ hissued)
  | update old _ hsame => exact hgone id (resolve_eq_some.mpr ⟨old, hbefore, hsame ▸ hhash⟩)

/-- A token that resolves has been issued. -/
theorem Issued.mem_tokens (hinj : Function.Injective (SessionToken.hash sha256))
    {state : StoreState} (hissued : Issued sha256 state) {token : SessionToken} {id : String}
    (hresolve : resolve sha256 state.table token = some id) : token ∈ state.tokens := by
  obtain ⟨row, hget, hhash⟩ := resolve_eq_some.mp hresolve
  obtain ⟨issued, hmem, hrow⟩ := hissued.tokens id row hget
  have hsame : issued = token := hinj (hrow.symm.trans hhash)
  exact hsame ▸ hmem

/-- One token at most resolves to a session. -/
theorem resolve_unique (hinj : Function.Injective (SessionToken.hash sha256))
    {table : SessionTable} {first second : SessionToken} {id : String}
    (hfirst : resolve sha256 table first = some id)
    (hsecond : resolve sha256 table second = some id) : first = second := by
  obtain ⟨row, hget, hhash⟩ := resolve_eq_some.mp hfirst
  obtain ⟨other, hother, hhash'⟩ := resolve_eq_some.mp hsecond
  rw [hget, Option.some.injEq] at hother
  subst hother
  exact hinj (hhash.symm.trans hhash')

/-- A rotate with a fresh token is never refused. -/
theorem rotateToken_isSome (hinj : Function.Injective (SessionToken.hash sha256))
    {state : StoreState} (hissued : Issued sha256 state) {id : String} {old token : SessionToken}
    (hfresh : token ∉ state.tokens) (hresolve : resolve sha256 state.table old = some id)
    (now : DateTime) : (rotateToken id (token.hash sha256) now state.table).isSome := by
  obtain ⟨row, hget, -⟩ := resolve_eq_some.mp hresolve
  unfold rotateToken
  rw [Table.update_key_isSome hget]
  -- no row holds the hash of a token that was never issued
  intro entry hentry other hother hne hslot
  have hentry' : token.hash sha256 = entry := Option.some.inj hentry
  have hslot' : other.tokenHash = entry := Option.some.inj hslot
  have hresolve' : resolve sha256 state.table token = some other.id :=
    resolve_eq_some.mpr ⟨other, Table.get?_eq_some.mpr ⟨hother, rfl⟩,
      hslot'.trans hentry'.symm⟩
  exact hfresh (hissued.mem_tokens hinj hresolve')

/-- After a rotate the new token resolves, and the replaced one does not. -/
theorem execute_rotateToken (hinj : Function.Injective (SessionToken.hash sha256))
    {state next : StoreState} (hissued : Issued sha256 state) {id : String}
    {old token : SessionToken} {now : DateTime}
    (hresolve : resolve sha256 state.table old = some id)
    (hstep : execute sha256 state (.rotateToken id token now) = some next) :
    resolve sha256 next.table token = some id ∧
      ∀ id', resolve sha256 next.table old ≠ some id' := by
  obtain ⟨row, hget, hhash⟩ := resolve_eq_some.mp hresolve
  have hold : old ∈ state.tokens := hissued.mem_tokens hinj hresolve
  simp only [execute] at hstep
  split at hstep
  · cases hstep
  rename_i hfresh
  rw [Option.some.injEq] at hstep
  obtain ⟨table, hrotate⟩ := Option.isSome_iff_exists.mp
    (rotateToken_isSome hinj hissued hfresh hresolve now)
  rw [hrotate, Option.getD_some] at hstep
  subst hstep
  refine ⟨?_, ?_⟩
  · refine resolve_eq_some.mpr ⟨row.setToken (token.hash sha256) now, ?_, rfl⟩
    show table.get? id = _
    rw [get?_rotateToken hrotate, if_pos rfl, hget, Option.map_some]
  · intro id' hresolve'
    obtain ⟨row', hget', hhash'⟩ := resolve_eq_some.mp hresolve'
    have hcases : table.get? id' = some row' := hget'
    rw [get?_rotateToken hrotate] at hcases
    split at hcases
    · rename_i hsame
      subst hsame
      rw [hget, Option.map_some, Option.some.injEq] at hcases
      subst hcases
      have hback : token = old := hinj hhash'
      exact hfresh (hback ▸ hold)
    · rename_i hne
      have hback : resolve sha256 state.table old = some id' :=
        resolve_eq_some.mpr ⟨row', hcases, hhash'⟩
      rw [hresolve, Option.some.injEq] at hback
      exact hne hback.symm

/-- **No session comes back.**  In every run of the statements, in any order and
with any arguments: once the row of a session has been deleted no token resolves
to it again; once a rotate has replaced a session's token, the replaced token
resolves to no session again; and at most one token resolves to each session. -/
theorem no_resurrection (hinj : Function.Injective (SessionToken.hash sha256))
    {statements : List Statement} {final : StoreState}
    (hrun : executeAll sha256 .initial statements = some final) :
    (∀ first second third present deleted id row, statements = first ++ second ++ third →
      executeAll sha256 .initial first = some present → present.table.get? id = some row →
      executeAll sha256 present second = some deleted → deleted.table.get? id = none →
      ∀ token, resolve sha256 final.table token ≠ some id) ∧
    (∀ before after present id old token now,
      statements = before ++ .rotateToken id token now :: after →
      executeAll sha256 .initial before = some present →
      resolve sha256 present.table old = some id →
      ∀ id', resolve sha256 final.table old ≠ some id') ∧
    (∀ first second id, resolve sha256 final.table first = some id →
      resolve sha256 final.table second = some id → first = second) := by
  refine ⟨?_, ?_, fun first second id => resolve_unique hinj⟩
  · rintro first second third present deleted id row rfl hfirst hget hsecond hnone token hresolve
    have hid : id ∈ deleted.ids := by
      have hpresent := (executeAll_issued hfirst).ids id row hget
      refine Machine.run_invariant (fun state => id ∈ state.ids) ?_ hpresent hsecond
      intro before statement after hmem hstep
      exact (execute_issued_mono hstep).1 id hmem
    obtain ⟨middle, hmiddle, hthird⟩ := Machine.run_append_eq_some.mp hrun
    have hsame : deleted = middle := by
      have hjoined := Machine.run_append_eq_some.mpr ⟨present, hfirst, hsecond⟩
      exact Option.some.inj (hjoined.symm.trans hmiddle)
    subst hsame
    obtain ⟨row', hget', -⟩ := resolve_eq_some.mp hresolve
    rw [executeAll_get?_eq_none hthird hid hnone] at hget'
    cases hget'
  · rintro before after present id old token now rfl hbefore hresolve
    obtain ⟨middle, hmiddle, hrest⟩ := Machine.run_append_eq_some.mp hrun
    have hsame : present = middle := Option.some.inj (hbefore.symm.trans hmiddle)
    subst hsame
    obtain ⟨next, hstep, hafter⟩ := Machine.run_cons_eq_some.mp hrest
    have hissued := executeAll_issued hbefore
    have hold := hissued.mem_tokens hinj hresolve
    exact executeAll_resolve_eq_none hinj hafter ((execute_issued_mono hstep).2 old hold)
      (execute_rotateToken hinj hissued hresolve hstep).2

/-- A session is created, its token replaced, and the session destroyed. -/
def rotatedRun : List Statement :=
  [.insert 3600 ⟨none, none, none, none, none⟩ "user" none "session" (sampleToken 0)
     (.ofSecs 1767225600),
   .rotateToken "session" (sampleToken 1) (.ofSecs 1767225700),
   .destroy "session"]

/-- Neither token of `rotatedRun` resolves at its end. -/
theorem rotatedRun_no_resurrection :
    ∃ final, executeAll sampleSha256 .initial rotatedRun = some final ∧
      (∀ id, resolve sampleSha256 final.table (sampleToken 0) ≠ some id) ∧
      ∀ token, resolve sampleSha256 final.table token ≠ some "session" := by
  have hlaw := no_resurrection sampleHash_injective
    (show executeAll sampleSha256 .initial rotatedRun = some _ from rfl)
  refine ⟨_, rfl, ?_, ?_⟩
  · exact hlaw.2.1 (rotatedRun.take 1) [.destroy "session"] _ "session" (sampleToken 0)
      (sampleToken 1) (.ofSecs 1767225700) rfl rfl (by decide)
  · exact hlaw.1 (rotatedRun.take 2) [.destroy "session"] [] _ _ "session" _ rfl rfl rfl rfl
      (by decide)

end Modo.Sessions
