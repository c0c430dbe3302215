import Modo.Session.Jwt.Service
import Modo.TimeOrder

/-!
# How long a refresh token lasts

Three places compute the end of a refresh token.  `create` stores `expires_at`,
`refresh_ttl_secs` after the session was created; `mint_pair` reports
`refresh_expires_at` and signs it as `exp`, `refresh_ttl_secs` after the pair was
minted.  `rotate` mints a new pair and leaves `expires_at` alone, so a rotated
pair promises more than the row keeps (`rotatedPair_outlives_session`).

A run is a sequence of calls of the service with a clock that never goes back.
`State.live` has the pairs that were returned and since then neither rotated,
revoked, logged out nor evicted.  `Lasting` is the invariant, and
`refresh_lifetime` says for every pair that is live whether its row lasts: exactly
when it was minted in the second its session was created in.
-/

namespace Modo.Sessions.Jwt.Lifetime

open Overflow (asI64 asI64_of_lt asI64_of_le)

/-- A pair the service has returned. -/
structure Grant where
  token : SessionToken
  sessionId : String
  pair : TokenPair
  /-- The clock reading its expiries were computed from. -/
  mintedAt : DateTime

/-- The store, the last reading of the clock, and the pairs that are live. -/
structure State where
  store : StoreState
  clock : DateTime
  live : List Grant

/-- The empty store; the clock does not stand before the epoch. -/
def State.initial : State := ⟨.initial, .ofSecs 0, []⟩

/-- A call of the service, with what it draws and reads and the outcomes of its
store calls. -/
inductive Call where
  | authenticate (info : ClientInfo) (userId : String) (create : CreateCall) (mint : MintCall)
  | rotate (parsed : Except JwtError Claims) (read : ReadCall) (write : WriteCall)
  | list (userId : String) (now : DateTime)
  | revoke (userId id : String) (readOk destroyOk : Bool)
  | logout (parsed : Except JwtError Claims) (read : ReadCall) (destroyOk : Bool)

/-- The clock readings of a call, in the order it makes them. -/
def Call.readings : Call → List DateTime
  | .authenticate _ _ create mint => [create.now, mint.now, mint.accessIat, mint.refreshIat]
  | .rotate _ read write =>
      [read.decodeNow, read.readNow, write.now, write.mint.now, write.mint.accessIat,
        write.mint.refreshIat]
  | .list _ now => [now]
  | .revoke _ _ _ _ => []
  | .logout _ read _ => [read.decodeNow, read.readNow]

/-- A clock that never goes back. -/
def advance : DateTime → List DateTime → Option DateTime
  | clock, [] => some clock
  | clock, now :: rest => if clock ≤ now then advance now rest else none

variable {sha256 : List UInt8 → String} {config : JwtSessionsConfig}

/-- What a call does to the store and to the live pairs.  It is `none` when an id
or a token is not fresh, or when the victims of a trim are not an answer of its
`SELECT`. -/
def perform (sha256 : List UInt8 → String) (config : JwtSessionsConfig) (store : StoreState)
    (live : List Grant) : Call → Option (StoreState × List Grant)
  | .authenticate info userId create mint =>
      if create.id ∈ store.ids ∨ create.token ∈ store.tokens then none
      else
        let ids := create.id :: store.ids
        let tokens := create.token :: store.tokens
        match authenticate sha256 config info userId create mint store.table with
        | none => none
        | some (table, .error _) => some (⟨table, ids, tokens⟩, live)
        | some (table, .ok pair) =>
            -- the trim may evict the session it was made for
            some (⟨table, ids, tokens⟩,
              (⟨create.token, create.id, pair, mint.now⟩ :: live).filter fun grant =>
                decide (grant.sessionId ∉ create.victims.map Row.id))
  | .rotate parsed read write =>
      if write.token ∈ store.tokens then none
      else
        let tokens := write.token :: store.tokens
        match rotateRead sha256 config parsed read store.table with
        | .error _ => some (store, live)
        | .ok (presented, session) =>
            match rotateWrite sha256 config session write store.table with
            | none => some (⟨store.table, store.ids, tokens⟩, live)
            | some (table, pair) =>
                some (⟨table, store.ids, tokens⟩,
                  ⟨write.token, session.id, pair, write.mint.now⟩ ::
                    live.filter fun grant => decide (grant.token ≠ presented))
  | .list _ _ => some (store, live)
  | .revoke userId id readOk destroyOk =>
      match revoke userId id readOk destroyOk store.table with
      | (_, .error _) => some (store, live)
      | (table, .ok ()) =>
          some (⟨table, store.ids, store.tokens⟩,
            live.filter fun grant => decide (grant.sessionId ≠ id))
  | .logout parsed read destroyOk =>
      match readPresented sha256 config "access" parsed read store.table,
          logout sha256 config parsed read destroyOk store.table with
      | .ok (presented, _), (table, .ok ()) =>
          some (⟨table, store.ids, store.tokens⟩,
            live.filter fun grant => decide (grant.token ≠ presented))
      | _, _ => some (store, live)

/-- One call. -/
def step (sha256 : List UInt8 → String) (config : JwtSessionsConfig) (state : State)
    (call : Call) : Option State :=
  match advance state.clock call.readings, perform sha256 config state.store state.live call with
  | some clock, some (store, live) => some ⟨store, clock, live⟩
  | _, _ => none

/-- Make a list of calls. -/
abbrev run (sha256 : List UInt8 → String) (config : JwtSessionsConfig) :
    State → List Call → Option State :=
  Machine.run (step sha256 config)

/-! ## The clock -/

/-- The readings of a call lie between the clock before and after it, in order. -/
theorem advance_spec {clock clock' : DateTime} {readings : List DateTime}
    (hadvance : advance clock readings = some clock') :
    clock ≤ clock' ∧ (∀ now ∈ readings, clock ≤ now ∧ now ≤ clock') ∧
      readings.Pairwise (· ≤ ·) := by
  induction readings generalizing clock with
  | nil =>
      rw [advance, Option.some.injEq] at hadvance
      subst hadvance
      exact ⟨le_refl clock, by simp, List.Pairwise.nil⟩
  | cons now rest ih =>
      rw [advance] at hadvance
      split at hadvance
      · rename_i hle
        obtain ⟨hend, hrest, hpairwise⟩ := ih hadvance
        refine ⟨le_trans hle hend, ?_, ?_⟩
        · intro other hmem
          rcases List.mem_cons.mp hmem with rfl | hmem
          · exact ⟨hle, hend⟩
          · exact ⟨le_trans hle (hrest other hmem).1, (hrest other hmem).2⟩
        · exact List.pairwise_cons.mpr ⟨fun other hmem => (hrest other hmem).1, hpairwise⟩
      · cases hadvance

/-! ## The invariant -/

/-- A row that was created no later than `clock`, and expires when `create` has
said. -/
def Dated (config : JwtSessionsConfig) (clock : DateTime) (row : Row) : Prop :=
  row.session.createdAt ≤ clock ∧
    row.session.expiresAt = row.session.createdAt.addSeconds (asI64 config.refreshTtlSecs)

/-- A pair whose token its row has; the expiries of the pair were computed from a
reading no earlier than the creation of the session. -/
def Backed (sha256 : List UInt8 → String) (config : JwtSessionsConfig) (table : SessionTable)
    (grant : Grant) : Prop :=
  ∃ row userId mint, table.get? grant.sessionId = some row ∧
    row.tokenHash = grant.token.hash sha256 ∧ row.session.createdAt ≤ grant.mintedAt ∧
    grant.pair = mintPair config userId grant.token mint ∧ mint.now = grant.mintedAt ∧
    0 ≤ grant.mintedAt.secs

/-- Live pairs have their rows, and no row's expiry has moved. -/
structure Lasting (sha256 : List UInt8 → String) (config : JwtSessionsConfig) (state : State) :
    Prop where
  issued : Issued sha256 state.store
  epoch : 0 ≤ state.clock.secs
  dated : ∀ id row, state.store.table.get? id = some row → Dated config state.clock row
  live : ∀ grant ∈ state.live, Backed sha256 config state.store.table grant

theorem lasting_initial : Lasting sha256 config .initial :=
  ⟨issued_initial, le_refl 0, by simp [State.initial, StoreState.initial],
    by simp [State.initial]⟩

/-- A pair is backed by its row alone. -/
theorem Backed.congr {table table' : SessionTable} {grant : Grant}
    (hbacked : Backed sha256 config table grant)
    (hget : table'.get? grant.sessionId = table.get? grant.sessionId) :
    Backed sha256 config table' grant := by
  obtain ⟨row, userId, mint, hrow, hrest⟩ := hbacked
  exact ⟨row, userId, mint, hget.trans hrow, hrest⟩

theorem Dated.mono {clock clock' : DateTime} {row : Row} (hdated : Dated config clock row)
    (hle : clock ≤ clock') : Dated config clock' row :=
  ⟨le_trans hdated.1 hle, hdated.2⟩

/-- The clock moves on. -/
theorem Lasting.tick {state : State} (hlasting : Lasting sha256 config state) {clock : DateTime}
    (hle : state.clock ≤ clock) : Lasting sha256 config ⟨state.store, clock, state.live⟩ := by
  refine ⟨hlasting.issued, ?_, fun id row hget => (hlasting.dated id row hget).mono hle,
    hlasting.live⟩
  have hepoch := hlasting.epoch
  rw [DateTime.le_def] at hle
  show 0 ≤ clock.secs
  omega

/-! ## What the calls preserve -/

/-- A session is deleted, with its live pairs. -/
theorem Lasting.destroy {state : State} (hlasting : Lasting sha256 config state) {id : String}
    {live : List Grant} (hlive : ∀ grant ∈ live, grant ∈ state.live ∧ grant.sessionId ≠ id) :
    Lasting sha256 config
      ⟨⟨destroy id state.store.table, state.store.ids, state.store.tokens⟩, state.clock, live⟩ := by
  have hexecute : execute sha256 state.store (.destroy id) =
      some { state.store with table := Sessions.destroy id state.store.table } := rfl
  refine ⟨execute_issued hlasting.issued hexecute, hlasting.epoch, ?_, ?_⟩
  · intro k row hget
    simp only [get?_destroy] at hget
    split at hget
    · cases hget
    · exact hlasting.dated k row hget
  · intro grant hmem
    obtain ⟨hold, hne⟩ := hlive grant hmem
    refine (hlasting.live grant hold).congr ?_
    rw [get?_destroy, if_neg hne]

/-- A live pair whose token was not presented belongs to another session than the
one that was read. -/
theorem Lasting.sessionId_ne (hinj : Function.Injective (SessionToken.hash sha256))
    {state : State} (hlasting : Lasting sha256 config state) {presented : SessionToken}
    {id : String} {row : Row} (hget : state.store.table.get? id = some row)
    (hhash : row.tokenHash = presented.hash sha256) {grant : Grant} (hlive : grant ∈ state.live)
    (hne : grant.token ≠ presented) : grant.sessionId ≠ id := by
  rintro rfl
  obtain ⟨row', userId, mint, hget', hhash', -⟩ := hlasting.live grant hlive
  rw [hget, Option.some.injEq] at hget'
  subst hget'
  exact hne (hinj (hhash'.symm.trans hhash))

theorem rotate_lasting (hinj : Function.Injective (SessionToken.hash sha256)) {state : State}
    (hlasting : Lasting sha256 config state) {clock : DateTime} (hclock : state.clock ≤ clock)
    {parsed : Except JwtError Claims} {read : ReadCall} {write : WriteCall}
    {presented : SessionToken} {session : SessionData} {table : SessionTable} {pair : TokenPair}
    (hfresh : write.token ∉ state.store.tokens) (hmint : state.clock ≤ write.mint.now)
    (hread : rotateRead sha256 config parsed read state.store.table = .ok (presented, session))
    (hwrite : rotateWrite sha256 config session write state.store.table = some (table, pair)) :
    Lasting sha256 config
      ⟨⟨table, state.store.ids, write.token :: state.store.tokens⟩, clock,
        ⟨write.token, session.id, pair, write.mint.now⟩ ::
          state.live.filter fun grant => decide (grant.token ≠ presented)⟩ := by
  obtain ⟨row, hget, -, hhash⟩ := rotateRead_eq_ok hread
  obtain ⟨-, hrotate, rfl⟩ := rotateWrite_eq_some hwrite
  have hticked := hlasting.tick hclock
  have hexecute : execute sha256 state.store (.rotateToken session.id write.token write.now) =
      some ⟨table, state.store.ids, write.token :: state.store.tokens⟩ := by
    simp only [execute, hfresh, if_false, hrotate, Option.getD_some]
  refine ⟨execute_issued hlasting.issued hexecute, hticked.epoch, ?_, ?_⟩
  · intro k row' hget'
    simp only [get?_rotateToken hrotate] at hget'
    split at hget'
    · obtain ⟨old, hold, rfl⟩ := Option.map_eq_some_iff.mp hget'
      exact hticked.dated k old hold
    · exact hticked.dated k row' hget'
  · intro grant hmem
    rcases List.mem_cons.mp hmem with rfl | hmem
    · -- the row of the new pair was created before the call
      have hcreated := (hlasting.dated session.id row hget).1
      refine ⟨row.setToken (write.token.hash sha256) write.now, session.userId, write.mint, ?_, rfl,
        le_trans hcreated hmint, rfl, rfl, ?_⟩
      · show table.get? session.id = _
        rw [get?_rotateToken hrotate, if_pos rfl, hget, Option.map_some]
      · exact (hlasting.tick hmint).epoch
    · obtain ⟨hold, hne⟩ := List.mem_filter.mp hmem
      rw [decide_eq_true_eq] at hne
      refine (hlasting.live grant hold).congr ?_
      show table.get? grant.sessionId = _
      rw [get?_rotateToken hrotate, if_neg (hlasting.sessionId_ne hinj hget hhash hold hne)]

/-- A new row is inserted. -/
theorem insert_lasting {state : State} (hlasting : Lasting sha256 config state)
    {clock : DateTime} {info : ClientInfo} {userId : String} {call : CreateCall}
    {inserted : SessionTable} (hfresh : call.id ∉ state.store.ids ∧ call.token ∉ state.store.tokens)
    (hnow : state.clock ≤ call.now) (hclock : call.now ≤ clock)
    (hinsert : state.store.table.insert ⟨call.token.hash sha256,
      newSession config.refreshTtlSecs info userId none call.id call.now⟩ = some inserted) :
    Lasting sha256 config
      ⟨⟨inserted, call.id :: state.store.ids, call.token :: state.store.tokens⟩, clock,
        state.live⟩ := by
  have hticked := hlasting.tick (le_trans hnow hclock)
  have hexecute : execute sha256 state.store
      (.insert config.refreshTtlSecs info userId none call.id call.token call.now) =
        some ⟨inserted, call.id :: state.store.ids, call.token :: state.store.tokens⟩ := by
    simp only [execute, hfresh.1, hfresh.2, or_self, if_false, hinsert, Option.getD_some]
  refine ⟨execute_issued hlasting.issued hexecute, hticked.epoch, ?_, ?_⟩
  · intro k row hget
    simp only [Table.get?_insert hinsert] at hget
    split at hget
    · rw [Option.some.injEq] at hget
      subst hget
      exact ⟨hclock, rfl⟩
    · exact hticked.dated k row hget
  · intro grant hmem
    have hbacked := hlasting.live grant hmem
    refine hbacked.congr ?_
    -- an id that was issued before is not the new one
    obtain ⟨row, -, -, hget, -⟩ := hbacked
    have hissued := hlasting.issued.ids _ row hget
    have hne : call.id ≠ grant.sessionId := fun heq => hfresh.1 (heq ▸ hissued)
    show inserted.get? grant.sessionId = _
    rw [Table.get?_insert hinsert]
    exact if_neg hne

/-- The trim evicts sessions, with their live pairs. -/
theorem Lasting.trim {state : State} (hlasting : Lasting sha256 config state) {userId : String}
    {now : DateTime} {max : ℕ} {victims : List Row} {table : SessionTable}
    (htrim : trim userId now max victims state.store.table = some table) {live : List Grant}
    (hlive : ∀ grant ∈ live, Backed sha256 config state.store.table grant ∧
      grant.sessionId ∉ victims.map Row.id) :
    Lasting sha256 config
      ⟨⟨table, state.store.ids, state.store.tokens⟩, state.clock, live⟩ := by
  have hexecute : execute sha256 state.store (.trim userId now max victims) =
      some { state.store with table := table } := by
    simp only [execute, htrim, Option.map_some]
  refine ⟨execute_issued hlasting.issued hexecute, hlasting.epoch, ?_, ?_⟩
  · intro k row hget
    simp only [get?_trim htrim] at hget
    split at hget
    · cases hget
    · exact hlasting.dated k row hget
  · intro grant hmem
    obtain ⟨hbacked, hspared⟩ := hlive grant hmem
    refine hbacked.congr ?_
    show table.get? grant.sessionId = _
    rw [get?_trim htrim, if_neg hspared]

theorem authenticate_lasting {state : State} (hlasting : Lasting sha256 config state)
    {clock : DateTime} {info : ClientInfo} {userId : String} {call : CreateCall} {mint : MintCall}
    {store : StoreState} {live : List Grant}
    (hnow : state.clock ≤ call.now) (hmint : call.now ≤ mint.now) (hclock : mint.now ≤ clock)
    (hperform : perform sha256 config state.store state.live
      (.authenticate info userId call mint) = some (store, live)) :
    Lasting sha256 config ⟨store, clock, live⟩ := by
  have hend : call.now ≤ clock := le_trans hmint hclock
  simp only [perform] at hperform
  split at hperform
  · cases hperform
  rename_i hfresh
  rw [not_or] at hfresh
  split at hperform
  · cases hperform
  · rename_i table error hauth
    rw [Option.some.injEq, Prod.mk.injEq] at hperform
    obtain ⟨rfl, rfl⟩ := hperform
    rcases authenticate_cases hauth with ⟨rfl, -⟩ | ⟨inserted, hinsert, ⟨rfl, -⟩ | ⟨-, hok⟩⟩
    · have hticked := hlasting.tick (le_trans hnow hend)
      -- the insert failed, and the id and the token are spent all the same
      exact ⟨hticked.issued.mono (fun _ => List.mem_cons_of_mem _)
          (fun _ => List.mem_cons_of_mem _),
        hticked.epoch, hticked.dated, hticked.live⟩
    · exact insert_lasting hlasting hfresh hnow hend hinsert
    · cases hok
  · rename_i table pair hauth
    rw [Option.some.injEq, Prod.mk.injEq] at hperform
    obtain ⟨rfl, rfl⟩ := hperform
    rcases authenticate_cases hauth with
      ⟨-, herror⟩ | ⟨inserted, hinsert, ⟨-, herror⟩ | ⟨htrim, hok⟩⟩
    · cases herror
    · cases herror
    · rw [Except.ok.injEq] at hok
      subst hok
      have hinserted := insert_lasting hlasting hfresh hnow hend hinsert
      refine hinserted.trim htrim ?_
      intro grant hmem
      obtain ⟨hmem, hspared⟩ := List.mem_filter.mp hmem
      refine ⟨?_, of_decide_eq_true hspared⟩
      -- the pair that was minted now, and those from before
      rcases List.mem_cons.mp hmem with rfl | hold
      · refine ⟨⟨call.token.hash sha256,
            newSession config.refreshTtlSecs info userId none call.id call.now⟩,
          userId, mint, ?_, rfl, hmint, rfl, rfl, ?_⟩
        · show inserted.get? call.id = _
          rw [Table.get?_insert hinsert]
          exact if_pos rfl
        · exact (hlasting.tick (le_trans hnow hmint)).epoch
      · exact hinserted.live grant hold

/-- A live pair that `logout` or `rotate` has not been called with. -/
theorem mem_filter_token {live : List Grant} {presented : SessionToken} {grant : Grant}
    (hmem : grant ∈ live.filter fun grant => decide (grant.token ≠ presented)) :
    grant ∈ live ∧ grant.token ≠ presented := by
  obtain ⟨hold, hne⟩ := List.mem_filter.mp hmem
  exact ⟨hold, of_decide_eq_true hne⟩

theorem logout_lasting (hinj : Function.Injective (SessionToken.hash sha256)) {state : State}
    (hlasting : Lasting sha256 config state) {parsed : Except JwtError Claims} {read : ReadCall}
    {destroyOk : Bool} {store : StoreState} {live : List Grant}
    (hperform : perform sha256 config state.store state.live (.logout parsed read destroyOk) =
      some (store, live)) :
    Lasting sha256 config ⟨store, state.clock, live⟩ := by
  simp only [perform, logout] at hperform
  cases hread : readPresented sha256 config "access" parsed read state.store.table with
  | error error =>
      simp only [hread, Option.some.injEq, Prod.mk.injEq] at hperform
      obtain ⟨rfl, rfl⟩ := hperform
      exact hlasting
  | ok found =>
      obtain ⟨presented, session⟩ := found
      cases session with
      | none =>
          simp only [hread, Option.some.injEq, Prod.mk.injEq] at hperform
          obtain ⟨rfl, rfl⟩ := hperform
          exact ⟨hlasting.issued, hlasting.epoch, hlasting.dated,
            fun grant hmem => hlasting.live grant (mem_filter_token hmem).1⟩
      | some session =>
          obtain ⟨row, hget, -, hhash⟩ := readPresented_eq_ok hread
          cases destroyOk with
          | false =>
              simp only [hread, Bool.false_eq_true, if_false, Option.some.injEq,
                Prod.mk.injEq] at hperform
              obtain ⟨rfl, rfl⟩ := hperform
              exact hlasting
          | true =>
              simp only [hread, if_true, Option.some.injEq, Prod.mk.injEq] at hperform
              obtain ⟨rfl, rfl⟩ := hperform
              apply hlasting.destroy
              intro grant hmem
              obtain ⟨hold, hne⟩ := mem_filter_token hmem
              exact ⟨hold, hlasting.sessionId_ne hinj hget hhash hold hne⟩

theorem revoke_lasting {state : State} (hlasting : Lasting sha256 config state)
    {userId id : String} {readOk destroyOk : Bool} {store : StoreState} {live : List Grant}
    (hperform : perform sha256 config state.store state.live (.revoke userId id readOk destroyOk) =
      some (store, live)) :
    Lasting sha256 config ⟨store, state.clock, live⟩ := by
  simp only [perform] at hperform
  split at hperform
  · rw [Option.some.injEq, Prod.mk.injEq] at hperform
    obtain ⟨rfl, rfl⟩ := hperform
    exact hlasting
  · rename_i table hrevoke
    rw [Option.some.injEq, Prod.mk.injEq] at hperform
    obtain ⟨rfl, rfl⟩ := hperform
    rw [revoke_eq_ok hrevoke]
    apply hlasting.destroy
    intro grant hmem
    obtain ⟨hold, hne⟩ := List.mem_filter.mp hmem
    exact ⟨hold, of_decide_eq_true hne⟩

theorem step_lasting (hinj : Function.Injective (SessionToken.hash sha256)) {state next : State}
    {call : Call} (hlasting : Lasting sha256 config state)
    (hstep : step sha256 config state call = some next) : Lasting sha256 config next := by
  unfold step at hstep
  split at hstep
  · rename_i clock store live hadvance hperform
    rw [Option.some.injEq] at hstep
    subst hstep
    obtain ⟨hclock, hreadings, hpairwise⟩ := advance_spec hadvance
    have hticked := hlasting.tick hclock
    cases call with
    | authenticate info userId create mint =>
        simp only [Call.readings, List.mem_cons, forall_eq_or_imp] at hreadings
        simp only [Call.readings, List.pairwise_cons, List.mem_cons, forall_eq_or_imp] at hpairwise
        exact authenticate_lasting hlasting hreadings.1.1 hpairwise.1.1 hreadings.2.1.2 hperform
    | rotate parsed read write =>
        simp only [Call.readings, List.mem_cons, forall_eq_or_imp] at hreadings
        obtain ⟨-, -, -, ⟨hmint, -⟩, -⟩ := hreadings
        simp only [perform] at hperform
        split at hperform
        · cases hperform
        rename_i hfresh
        split at hperform
        · rw [Option.some.injEq, Prod.mk.injEq] at hperform
          obtain ⟨rfl, rfl⟩ := hperform
          exact hticked
        · rename_i presented session hread
          split at hperform
          · rw [Option.some.injEq, Prod.mk.injEq] at hperform
            obtain ⟨rfl, rfl⟩ := hperform
            exact ⟨hticked.issued.mono (fun _ => id) (fun _ => List.mem_cons_of_mem _),
              hticked.epoch, hticked.dated, hticked.live⟩
          · rename_i table pair hwrite
            rw [Option.some.injEq, Prod.mk.injEq] at hperform
            obtain ⟨rfl, rfl⟩ := hperform
            -- the rotation wrote the row and minted the next pair
            exact rotate_lasting hinj hlasting hclock hfresh hmint hread hwrite
    | list userId now =>
        simp only [perform, Option.some.injEq, Prod.mk.injEq] at hperform
        obtain ⟨rfl, rfl⟩ := hperform
        exact hticked
    | revoke userId id readOk destroyOk => exact revoke_lasting hticked hperform
    | logout parsed read destroyOk => exact logout_lasting hinj hticked hperform
  · cases hstep

theorem run_lasting (hinj : Function.Injective (SessionToken.hash sha256)) {calls : List Call}
    {state : State} (hrun : run sha256 config .initial calls = some state) :
    Lasting sha256 config state :=
  Machine.run_invariant (Lasting sha256 config) (fun _ _ _ => step_lasting hinj) lasting_initial
    hrun

/-! ## The lifetime of a pair -/

/-- The pair was minted in the second its session was created in, and the sum of `mint_pair` wraps
around where the cast of `create` does. -/
def MintedAtOnce (config : JwtSessionsConfig) (created minted : DateTime) : Prop :=
  minted.secs = created.secs ∧
    (config.refreshTtlSecs < 2 ^ 63 ∨ 2 ^ 64 ≤ minted.secs + config.refreshTtlSecs)

/-- What `mint_pair` reports and `create` stores, in seconds: the sum wraps around below `2 ^ 64`,
and the cast takes `2 ^ 64` away. -/
theorem addSecs_le_iff (hconfig : config.refreshTtlSecs < 2 ^ 64) {created minted : DateTime}
    (hepoch : 0 ≤ minted.secs) (hclock : minted.secs < 2 ^ 63)
    (hcreated : created.secs ≤ minted.secs) :
    (addSecs (unixSecs minted) config.refreshTtlSecs : ℤ) ≤
        created.secs + asI64 config.refreshTtlSecs ↔
      MintedAtOnce config created minted := by
  unfold addSecs unixSecs MintedAtOnce
  rcases Nat.lt_or_ge config.refreshTtlSecs (2 ^ 63) with hlt | hle
  · rw [asI64_of_lt hlt]
    omega
  · rw [asI64_of_le hle hconfig]
    omega

/-- A row lasts as long as the pair says exactly when the pair was minted at once. -/
theorem expiresAt_iff (hconfig : config.refreshTtlSecs < 2 ^ 64) {clock : DateTime} {row : Row}
    (hdated : Dated config clock row) {userId : String} {token : SessionToken} {mint : MintCall}
    (hepoch : 0 ≤ mint.now.secs) (hclock : mint.now.secs < 2 ^ 63)
    (hcreated : row.session.createdAt ≤ mint.now) :
    DateTime.ofSecs (mintPair config userId token mint).refreshExpiresAt ≤ row.session.expiresAt ↔
      MintedAtOnce config row.session.createdAt mint.now := by
  have hsecs : row.session.createdAt.secs ≤ mint.now.secs := by
    rw [DateTime.le_def] at hcreated
    omega
  rw [← addSecs_le_iff hconfig hepoch hclock hsecs, hdated.2]
  simp only [DateTime.le_def, DateTime.ofSecs, DateTime.addSeconds, mintPair]
  omega

/-- A pair is accepted until its expiry when its row lasts as long. -/
theorem rotate_accepts (hinj : Function.Injective (SessionToken.hash sha256)) {state : State}
    (hlasting : Lasting sha256 config state) {grant : Grant} {row : Row} {userId : String}
    {mint : MintCall} (hget : state.store.table.get? grant.sessionId = some row)
    (hhash : row.tokenHash = grant.token.hash sha256)
    (hpair : grant.pair = mintPair config userId grant.token mint)
    (hlasts : DateTime.ofSecs grant.pair.refreshExpiresAt ≤ row.session.expiresAt)
    (hyear : row.session.expiresAt.secs < 253402300800) {read : ReadCall} {write : WriteCall}
    (hread : read.readOk = true) (hwrite : write.writeOk = true)
    (hfresh : write.token ∉ state.store.tokens) (hclock : state.clock ≤ read.decodeNow)
    (hdecode : read.decodeNow ≤ read.readNow)
    (hbefore : read.readNow.secs < grant.pair.refreshExpiresAt) :
    ∃ pair,
      (rotate sha256 config (.ok grant.pair.refreshToken) read write state.store.table).2 =
        .ok pair := by
  have hnow : 0 ≤ read.readNow.secs := (hlasting.tick (le_trans hclock hdecode)).epoch
  have hlt : read.readNow < row.session.expiresAt :=
    lt_of_lt_of_le (DateTime.lt_def.mpr (Or.inl hbefore)) hlasts
  have hactive : read.readNow.textLT row.session.expiresAt := by
    have hsecs := DateTime.lt_def.mp hlt
    exact (DateTime.textLT_iff ⟨by omega, by omega⟩ ⟨by omega, hyear⟩).mpr hlt
  rw [hpair] at hbefore ⊢
  have hpresented := presentedToken_mintPair config userId grant.token mint
    (show unixSecs read.decodeNow ≤ addSecs (unixSecs mint.now) config.refreshTtlSecs by
      rw [DateTime.le_def] at hdecode
      simp only [mintPair, unixSecs] at hbefore ⊢
      omega)
  have hsession := readByTokenHash_eq_some hget hactive
  rw [hhash] at hsession
  have hid : row.session.id = grant.sessionId := show row.id = _ from Table.get?_key hget
  obtain ⟨table, hrotate⟩ := Option.isSome_iff_exists.mp
    (rotateToken_isSome hinj hlasting.issued hfresh (resolve_eq_some.mpr ⟨row, hget, hhash⟩)
      write.now)
  refine ⟨mintPair config row.session.userId write.token write.mint, ?_⟩
  simp only [rotate, rotateRead, readPresented, hpresented, hread, if_true, hsession, rotateWrite,
    hwrite, hid, hrotate, Option.map_some]

/-- **When a refresh token lasts.**  In every run, every pair that was returned
and neither rotated, revoked, logged out nor evicted has its row.  The row
expires no earlier than the pair reports exactly when the pair was minted at once;
then `rotate` accepts the refresh token at every later reading of the clock
before its expiry, as long as the expiry has a year of four digits.

The lifetime is a `u64`, and the seconds of the clock are an `i64`. -/
theorem refresh_lifetime (hinj : Function.Injective (SessionToken.hash sha256))
    (hconfig : config.refreshTtlSecs < 2 ^ 64) {calls : List Call} {state : State}
    (hrun : run sha256 config .initial calls = some state) {grant : Grant}
    (hlive : grant ∈ state.live) (hclock : grant.mintedAt.secs < 2 ^ 63) :
    ∃ row, state.store.table.get? grant.sessionId = some row ∧
      row.tokenHash = grant.token.hash sha256 ∧
      (DateTime.ofSecs grant.pair.refreshExpiresAt ≤ row.session.expiresAt ↔
        MintedAtOnce config row.session.createdAt grant.mintedAt) ∧
      (MintedAtOnce config row.session.createdAt grant.mintedAt →
        row.session.expiresAt.secs < 253402300800 →
        ∀ read : ReadCall, ∀ write : WriteCall, read.readOk = true → write.writeOk = true →
          write.token ∉ state.store.tokens → state.clock ≤ read.decodeNow →
          read.decodeNow ≤ read.readNow → read.readNow.secs < grant.pair.refreshExpiresAt →
          ∃ pair,
            (rotate sha256 config (.ok grant.pair.refreshToken) read write state.store.table).2 =
              .ok pair) := by
  have hlasting := run_lasting hinj hrun
  obtain ⟨row, userId, mint, hget, hhash, hcreated, hpair, hmint, hepoch⟩ :=
    hlasting.live grant hlive
  rw [← hmint] at hcreated hepoch hclock ⊢
  have hiff : DateTime.ofSecs grant.pair.refreshExpiresAt ≤ row.session.expiresAt ↔
      MintedAtOnce config row.session.createdAt mint.now := by
    rw [hpair]
    exact expiresAt_iff hconfig (hlasting.dated grant.sessionId row hget) hepoch hclock hcreated
  refine ⟨row, hget, hhash, hiff, ?_⟩
  intro hminted hyear read write hread hwrite hfresh hticked hdecode hbefore
  exact rotate_accepts hinj hlasting hget hhash hpair (hiff.mpr hminted) hyear hread hwrite hfresh
    hticked hdecode hbefore

/-! ### One session, one rotation -/

/-- A user logs in. -/
def loginCall : Call :=
  .authenticate ⟨none, none, none, none, none⟩ "user"
    ⟨"session", sampleToken 0, .ofSecs 1767225600, true, true, []⟩ (mintAt 1767225600)

/-- The claims of the refresh token of `loginCall`. -/
def loginRefresh : Claims := (mintPair {} "user" (sampleToken 0) (mintAt 1767225600)).refreshToken

/-- The refresh token of `loginCall` is used, 100 seconds later. -/
def refreshCall : Call :=
  .rotate (.ok loginRefresh) ⟨.ofSecs 1767225700, .ofSecs 1767225700, true⟩
    ⟨sampleToken 1, .ofSecs 1767225700, true, mintAt 1767225700⟩

/-- What a run ends with: for each live pair its session, its minting second and
its expiry, and for the session its creation and its expiry. -/
def ends (state : State) : List (String × ℤ × ℕ) × Option (ℤ × ℤ) :=
  (state.live.map fun grant => (grant.sessionId, grant.mintedAt.secs, grant.pair.refreshExpiresAt),
    (state.store.table.get? "session").map fun row =>
      (row.session.createdAt.secs, row.session.expiresAt.secs))

/-- The pair of a login is accepted a second before the 30 days are over. -/
theorem loginPair_lifetime : ∃ state grant row pair,
    run sampleSha256 {} .initial [loginCall] = some state ∧ grant ∈ state.live ∧
    state.store.table.get? grant.sessionId = some row ∧
    DateTime.ofSecs grant.pair.refreshExpiresAt ≤ row.session.expiresAt ∧
    (rotate sampleSha256 {} (.ok grant.pair.refreshToken)
      ⟨.ofSecs 1769817599, .ofSecs 1769817599, true⟩
      ⟨sampleToken 1, .ofSecs 1769817599, true, mintAt 1769817599⟩ state.store.table).2 =
        .ok pair := by
  have hstate : (run sampleSha256 {} .initial [loginCall]).any (fun state => decide
      (ends state = ([("session", 1767225600, 1769817600)], some (1767225600, 1769817600)) ∧
        sampleToken 1 ∉ state.store.tokens ∧ state.clock ≤ .ofSecs 1769817599)) = true := by
    decide +kernel
  obtain ⟨state, hrun, hends, hfresh, hclock⟩ := Machine.exists_final hstate
  rw [ends, Prod.mk.injEq, List.map_eq_singleton_iff] at hends
  obtain ⟨⟨grant, hgrants, hgrant⟩, hrow⟩ := hends
  simp only [Prod.mk.injEq] at hgrant
  obtain ⟨hsession, hminted, hexpiry⟩ := hgrant
  have hlive : grant ∈ state.live := by simp [hgrants]
  have hbelow : grant.mintedAt.secs < 2 ^ 63 := by omega
  obtain ⟨row, hget, -, hlasts, haccepts⟩ :=
    refresh_lifetime sampleHash_injective (by decide) hrun hlive hbelow
  rw [← hsession, hget, Option.map_some, Option.some.injEq, Prod.mk.injEq] at hrow
  have hsecond : MintedAtOnce {} row.session.createdAt grant.mintedAt :=
    ⟨hminted.trans hrow.1.symm, Or.inl (by decide)⟩
  obtain ⟨pair, hpair⟩ := haccepts hsecond (by omega)
    ⟨.ofSecs 1769817599, .ofSecs 1769817599, true⟩
    ⟨sampleToken 1, .ofSecs 1769817599, true, mintAt 1769817599⟩ rfl rfl hfresh hclock (le_refl _)
    (by rw [hexpiry]; decide)
  exact ⟨state, grant, row, pair, hrun, hlive, hget, hlasts.mpr hsecond, hpair⟩

/-- After one rotation the new pair is live and reports an expiry 100 seconds
after that of its row; in between `rotate` refuses it. -/
theorem rotatedPair_outlives_session : ∃ state grant row,
    run sampleSha256 {} .initial [loginCall, refreshCall] = some state ∧ grant ∈ state.live ∧
    state.store.table.get? grant.sessionId = some row ∧
    ¬ DateTime.ofSecs grant.pair.refreshExpiresAt ≤ row.session.expiresAt ∧
    (1769817650 : ℤ) < grant.pair.refreshExpiresAt ∧
    (rotate sampleSha256 {} (.ok grant.pair.refreshToken)
      ⟨.ofSecs 1769817650, .ofSecs 1769817650, true⟩
      ⟨sampleToken 2, .ofSecs 1769817650, true, mintAt 1769817650⟩ state.store.table).2 =
        .error .sessionNotFound := by
  have hstate : (run sampleSha256 {} .initial [loginCall, refreshCall]).any (fun state =>
      state.live.any fun grant => (state.store.table.get? grant.sessionId).any fun row => decide
        (¬ DateTime.ofSecs grant.pair.refreshExpiresAt ≤ row.session.expiresAt ∧
          (1769817650 : ℤ) < grant.pair.refreshExpiresAt ∧
          (rotate sampleSha256 {} (.ok grant.pair.refreshToken)
            ⟨.ofSecs 1769817650, .ofSecs 1769817650, true⟩
            ⟨sampleToken 2, .ofSecs 1769817650, true, mintAt 1769817650⟩ state.store.table).2 =
              .error .sessionNotFound)) = true := by
    decide +kernel
  obtain ⟨state, hrun, hstate⟩ := (Option.any_eq_true _ _).mp hstate
  obtain ⟨grant, hlive, hgrant⟩ := List.any_eq_true.mp hstate
  obtain ⟨row, hget, hrow⟩ := (Option.any_eq_true _ _).mp hgrant
  exact ⟨state, grant, row, hrun, hlive, hget, of_decide_eq_true hrow⟩

end Modo.Sessions.Jwt.Lifetime
