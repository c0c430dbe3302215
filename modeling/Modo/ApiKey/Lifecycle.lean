import Modo.ApiKey.Store
import Modo.Encoding.Digest

/-!
# The life of an API key

What a key is good for is said by the log of a run alone: the token its `create`
returned, whether it was revoked, and the expiry it was given last.  The
invariant `Consistent` ties the record of a key to the log, and `verify_ok_iff`
reads off that `verify` accepts exactly the issued token of a key that was never
revoked and has not expired.
-/

namespace Modo.ApiKey

open DateTime (ofSecs)
open Utf8 (asBytes)

variable {sha256 : List UInt8 → String} {parseRfc3339 : String → Option DateTime}
  {store : ApiKeyStore}

/-! ## The log -/

/-- `create` returned `rawToken` for the key. -/
def Issued (log : List Event) (id rawToken : List Char) : Prop :=
  ∃ expiresAt, .created id rawToken expiresAt ∈ log

/-- The key has been revoked. -/
def Revoked (log : List Event) (id : List Char) : Prop := .revoked id ∈ log

/-- The expiry the key was given last. -/
def lastExpiry (id : List Char) : List Event → Option (Option String)
  | [] => none
  | .created other _ expiresAt :: rest | .refreshed other expiresAt :: rest =>
      if other = id then some expiresAt else lastExpiry id rest
  | .revoked _ :: rest => lastExpiry id rest

/-- The key has no expiry, or one after `now`. -/
def Unexpired (parseRfc3339 : String → Option DateTime) (log : List Event) (id : List Char)
    (now : DateTime) : Prop :=
  ∃ expiry, lastExpiry id log = some expiry ∧
    ∀ text, expiry = some text → ∃ expiresAt, parseRfc3339 text = some expiresAt ∧ now < expiresAt

/-! ## The invariant -/

/-- What the log says of the record of a key. -/
structure Describes (sha256 : List UInt8 → String) (config : ApiKeyConfig) (log : List Event)
    (id : List Char) (record : ApiKeyRecord) : Prop where
  issued : ∃ (ulid : Ulid) (secret : Secret config.secretLength), id = ulid.text ∧
    record.keyHash = hashSecret sha256 secret.text ∧
    ∀ rawToken, Issued log id rawToken ↔ rawToken = formatToken config.keyPrefix id secret.text
  revoked : record.revokedAt.isSome ↔ Revoked log id
  expiry : lastExpiry id log = some record.expiresAt

/-- The table and the log agree. -/
structure Consistent (sha256 : List UInt8 → String) (config : ApiKeyConfig) (state : State) :
    Prop where
  records : ∀ id record, state.table.get? id = some record →
    Describes sha256 config state.log id record
  /-- No key disappears. -/
  issued : ∀ id rawToken, Issued state.log id rawToken → (state.table.get? id).isSome
  revoked : ∀ id, Revoked state.log id → (state.table.get? id).isSome
  revokes : ∀ id ∈ state.revokes, (state.table.get? id).isSome

theorem consistent_initial (config : ApiKeyConfig) : Consistent sha256 config State.initial := by
  constructor <;> simp [State.initial, Issued, Revoked]

/-- A statement that keeps the records and the log. -/
theorem Consistent.of_same {config : ApiKeyConfig} {state next : State}
    (hconsistent : Consistent sha256 config state) (htable : next.table = state.table)
    (hlog : next.log = state.log)
    (hrevokes : ∀ id ∈ next.revokes, id ∈ state.revokes ∨ (state.table.get? id).isSome) :
    Consistent sha256 config next := by
  constructor
  · intro id record hget
    rw [hlog]
    exact hconsistent.records id record (htable ▸ hget)
  · intro id rawToken hissued
    rw [htable]
    exact hconsistent.issued id rawToken (hlog ▸ hissued)
  · intro id hrevoked
    rw [htable]
    exact hconsistent.revoked id (hlog ▸ hrevoked)
  · intro id hid
    rw [htable]
    exact (hrevokes id hid).elim (hconsistent.revokes id) (fun hsome => hsome)

/-- Events of other keys and of other kinds do not matter. -/
theorem Describes.cons {config : ApiKeyConfig} {log : List Event} {id : List Char}
    {record : ApiKeyRecord} (hdescribes : Describes sha256 config log id record) {event : Event}
    (hissued : ∀ rawToken expiresAt, event ≠ .created id rawToken expiresAt)
    (hrevoked : event ≠ .revoked id) (hrefreshed : ∀ expiresAt, event ≠ .refreshed id expiresAt) :
    Describes sha256 config (event :: log) id record := by
  obtain ⟨⟨ulid, secret, hid, hhash, htokens⟩, hmarked, hexpiry⟩ := hdescribes
  refine ⟨⟨ulid, secret, hid, hhash, ?_⟩, ?_, ?_⟩
  · intro rawToken
    rw [← htokens]
    simp [Issued, (hissued rawToken _).symm]
  · rw [hmarked]
    simp [Revoked, hrevoked.symm]
  · cases event with
    | created other rawToken expiresAt =>
        have hother : other ≠ id := fun heq => hissued rawToken expiresAt (by rw [heq])
        simp [lastExpiry, hother, hexpiry]
    | revoked other => simp [lastExpiry, hexpiry]
    | refreshed other expiresAt =>
        have hother : other ≠ id := fun heq => hrefreshed expiresAt (by rw [heq])
        simp [lastExpiry, hother, hexpiry]

/-- The record of a new key, whose id the log does not mention. -/
theorem describes_newRecord {config : ApiKeyConfig} {log : List Event} {ulid : Ulid}
    {secret : Secret config.secretLength} (request : CreateKeyRequest) (now : String)
    (hissued : ∀ rawToken, ¬ Issued log ulid.text rawToken) (hrevoked : ¬ Revoked log ulid.text) :
    Describes sha256 config
      (.created ulid.text (formatToken config.keyPrefix ulid.text secret.text)
        request.expiresAt :: log)
      ulid.text (newRecord sha256 request ulid.text secret.text now) := by
  refine ⟨⟨ulid, secret, rfl, rfl, ?_⟩, ?_, ?_⟩
  · intro rawToken
    constructor
    · rintro ⟨expiresAt, hmem⟩
      rcases List.mem_cons.mp hmem with heq | hold
      · simp only [Event.created.injEq] at heq
        exact heq.2.1
      · exact absurd ⟨expiresAt, hold⟩ (hissued rawToken)
    · rintro rfl
      exact ⟨_, List.mem_cons_self⟩
  · refine iff_of_false (by simp [newRecord]) ?_
    intro hmem
    rcases List.mem_cons.mp hmem with heq | hold
    · cases heq
    · exact hrevoked hold
  · simp [lastExpiry, newRecord]

/-- A new key. -/
theorem Consistent.create {state : State}
    (hconsistent : Consistent sha256 store.config state) {request : CreateKeyRequest} {ulid : Ulid}
    {secret : Secret store.config.secretLength} {now : String} {table : KeyTable}
    (hinsert : state.table.insert (newRecord sha256 request ulid.text secret.text now) =
      some table) :
    Consistent sha256 store.config { state with
      table := table,
      log := .created ulid.text (formatToken store.config.keyPrefix ulid.text secret.text)
        request.expiresAt :: state.log } := by
  have hfree : state.table.get? ulid.text = none := Table.get?_eq_none_of_insert hinsert
  have hget : ∀ id, table.get? id =
      if ulid.text = id then some (newRecord sha256 request ulid.text secret.text now)
      else state.table.get? id := Table.get?_insert hinsert
  have hkeeps : ∀ id, (state.table.get? id).isSome → (table.get? id).isSome := by
    intro id hsome
    rw [hget]
    split
    · rfl
    · exact hsome
  constructor
  · intro id record hrecord
    rw [hget] at hrecord
    split at hrecord
    · rename_i hid
      subst hid
      rw [Option.some.injEq] at hrecord
      subst hrecord
      -- the id was free, so no event of the log names it
      apply describes_newRecord
      · intro rawToken hissued
        have hsome := hconsistent.issued _ _ hissued
        rw [hfree] at hsome
        cases hsome
      · intro hrevoked
        have hsome := hconsistent.revoked _ hrevoked
        rw [hfree] at hsome
        cases hsome
    · rename_i hid
      refine (hconsistent.records id record hrecord).cons ?_ ?_ ?_
      · intro rawToken expiresAt heq
        simp only [Event.created.injEq] at heq
        exact hid heq.1
      · intro heq
        cases heq
      · intro expiresAt heq
        cases heq
  · rintro id rawToken ⟨expiresAt, hmem⟩
    rcases List.mem_cons.mp hmem with heq | hold
    · simp only [Event.created.injEq] at heq
      rw [hget, if_pos heq.1.symm]
      rfl
    · exact hkeeps id (hconsistent.issued id rawToken ⟨expiresAt, hold⟩)
  · intro id hrevoked
    rcases List.mem_cons.mp hrevoked with heq | hold
    · cases heq
    · exact hkeeps id (hconsistent.revoked id hold)
  · intro id hid
    exact hkeeps id (hconsistent.revokes id hid)

/-- An update of one key, which may leave an event in the log. -/
theorem Consistent.update {config : ApiKeyConfig} {state next : State}
    (hconsistent : Consistent sha256 config state) {id : List Char}
    {f : ApiKeyRecord → ApiKeyRecord}
    (hget : ∀ k, next.table.get? k =
      if k = id then (state.table.get? k).map f else state.table.get? k)
    (hself : ∀ record, Describes sha256 config state.log id record →
      Describes sha256 config next.log id (f record))
    (hothers : ∀ k record, k ≠ id → Describes sha256 config state.log k record →
      Describes sha256 config next.log k record)
    (hissued : ∀ k rawToken, Issued next.log k rawToken → Issued state.log k rawToken)
    (hrevoked : ∀ k, Revoked next.log k → Revoked state.log k ∨ (state.table.get? k).isSome)
    (hrevokes : ∀ k ∈ next.revokes, k ∈ state.revokes) :
    Consistent sha256 config next := by
  have hkeeps : ∀ k, (state.table.get? k).isSome → (next.table.get? k).isSome := by
    intro k hsome
    rw [hget]
    split
    · rw [Option.isSome_map]
      exact hsome
    · exact hsome
  constructor
  · intro k record hrecord
    rw [hget] at hrecord
    split at hrecord
    · rename_i hid
      subst hid
      obtain ⟨old, hold, rfl⟩ := Option.map_eq_some_iff.mp hrecord
      exact hself old (hconsistent.records k old hold)
    · rename_i hid
      exact hothers k record hid (hconsistent.records k record hrecord)
  · exact fun k rawToken hk => hkeeps k (hconsistent.issued k rawToken (hissued k rawToken hk))
  · exact fun k hk => hkeeps k ((hrevoked k hk).elim (hconsistent.revoked k) fun hsome => hsome)
  · exact fun k hk => hkeeps k (hconsistent.revokes k (hrevokes k hk))

/-- What `create` does when it returns a token. -/
theorem create_eq_ok {config : ApiKeyConfig} {request : CreateKeyRequest} {ulid : Ulid}
    {secret : Secret config.secretLength} {now : String} {table table' : KeyTable}
    {created : ApiKeyCreated}
    (hcreate : create sha256 parseRfc3339 config request ulid secret now table =
      .ok (table', created)) :
    table.insert (newRecord sha256 request ulid.text secret.text now) = some table' ∧
      created.id = ulid.text ∧
      created.rawToken = formatToken config.keyPrefix ulid.text secret.text ∧
      created.expiresAt = request.expiresAt := by
  unfold create at hcreate
  cases hcheck : checkRequest parseRfc3339 request with
  | error failure =>
      rw [hcheck] at hcreate
      cases hcreate
  | ok =>
      rw [hcheck] at hcreate
      simp only [Bind.bind, Except.bind] at hcreate
      split at hcreate
      · cases hcreate
      · rename_i stored hinsert
        simp only [Except.ok.injEq, Prod.mk.injEq] at hcreate
        obtain ⟨rfl, rfl⟩ := hcreate
        exact ⟨hinsert, rfl, rfl, rfl⟩

/-- A touch changes nothing the log speaks of. -/
theorem Consistent.touch {config : ApiKeyConfig} {state : State}
    (hconsistent : Consistent sha256 config state) (id : List Char) (now : String)
    (touches : List (List Char)) :
    Consistent sha256 config
      { state with table := updateLastUsed id now state.table, touches := touches } := by
  refine hconsistent.update (get?_updateLastUsed id now state.table) ?_ ?_ ?_ ?_ ?_
  · exact fun record hrecord => ⟨hrecord.issued, hrecord.revoked, hrecord.expiry⟩
  · exact fun k record _ hrecord => hrecord
  · exact fun k rawToken hissued => hissued
  · exact fun k hrevoked => Or.inl hrevoked
  · exact fun k hk => hk

/-- The update of `revoke`, whose key exists. -/
theorem Consistent.revoke {config : ApiKeyConfig} {state : State}
    (hconsistent : Consistent sha256 config state) {id : List Char} (hid : id ∈ state.revokes)
    (now : String) :
    Consistent sha256 config { state with
      table := updateRevokedAt id now state.table, revokes := state.revokes.erase id,
      log := .revoked id :: state.log } := by
  refine hconsistent.update (get?_updateRevokedAt id now state.table) ?_ ?_ ?_ ?_ ?_
  · intro record hrecord
    refine ⟨?_, ?_, hrecord.expiry⟩
    · obtain ⟨ulid, secret, hulid, hhash, htokens⟩ := hrecord.issued
      refine ⟨ulid, secret, hulid, hhash, fun rawToken => ?_⟩
      rw [← htokens]
      simp [Issued]
    · exact iff_of_true rfl List.mem_cons_self
  · intro k record hk hrecord
    refine hrecord.cons ?_ ?_ ?_
    · intro rawToken expiresAt heq
      cases heq
    · intro heq
      simp only [Event.revoked.injEq] at heq
      exact hk heq.symm
    · intro expiresAt heq
      cases heq
  · intro k rawToken hissued
    simpa [Issued] using hissued
  · intro k hrevoked
    rcases List.mem_cons.mp hrevoked with heq | hold
    · simp only [Event.revoked.injEq] at heq
      exact Or.inr (heq ▸ hconsistent.revokes id hid)
    · exact Or.inl hold
  · exact fun k hk => List.mem_of_mem_erase hk

/-- The update of `refresh`. -/
theorem Consistent.refresh {config : ApiKeyConfig} {state : State}
    (hconsistent : Consistent sha256 config state) (id : List Char) (expiresAt : Option String)
    (refreshes : List (List Char × Option String)) :
    Consistent sha256 config { state with
      table := updateExpiresAt id expiresAt state.table, refreshes := refreshes,
      log := .refreshed id expiresAt :: state.log } := by
  refine hconsistent.update (get?_updateExpiresAt id expiresAt state.table) ?_ ?_ ?_ ?_ ?_
  · intro record hrecord
    refine ⟨?_, ?_, by simp [lastExpiry]⟩
    · obtain ⟨ulid, secret, hulid, hhash, htokens⟩ := hrecord.issued
      refine ⟨ulid, secret, hulid, hhash, fun rawToken => ?_⟩
      rw [← htokens]
      simp [Issued]
    · rw [hrecord.revoked]
      simp [Revoked]
  · intro k record hk hrecord
    refine hrecord.cons ?_ ?_ ?_
    · intro rawToken expiresAt heq
      cases heq
    · intro heq
      cases heq
    · intro expiresAt' heq
      simp only [Event.refreshed.injEq] at heq
      exact hk heq.1.symm
  · intro k rawToken hissued
    simpa [Issued] using hissued
  · intro k hrevoked
    left
    simpa [Revoked] using hrevoked
  · exact fun k hk => hk

theorem step_consistent {state next : State} {action : Action store.config}
    (hconsistent : Consistent sha256 store.config state)
    (hstep : step sha256 parseRfc3339 store state action = some next) :
    Consistent sha256 store.config next := by
  cases action with
  | create request ulid secret now =>
      simp only [step] at hstep
      split at hstep
      · rw [Option.some.injEq] at hstep
        exact hstep ▸ hconsistent
      · rename_i table created hcreate
        rw [Option.some.injEq] at hstep
        obtain ⟨hinsert, hid, htoken, hexpiry⟩ := create_eq_ok hcreate
        rw [← hstep, hid, htoken, hexpiry]
        exact hconsistent.create hinsert
  | verify rawToken now later =>
      simp only [step] at hstep
      split at hstep
      · rw [Option.some.injEq] at hstep
        exact hstep ▸ hconsistent
      · split at hstep <;> (rw [Option.some.injEq] at hstep; subst hstep)
        · exact hconsistent.of_same rfl rfl fun id hid => Or.inl hid
        · exact hconsistent
  | touch id now =>
      simp only [step, Option.ite_none_right_eq_some, Option.some.injEq] at hstep
      obtain ⟨-, rfl⟩ := hstep
      exact hconsistent.touch id now _
  | revoke id =>
      simp only [step] at hstep
      split at hstep
      · rw [Option.some.injEq] at hstep
        exact hstep ▸ hconsistent
      · rename_i record hget
        rw [Option.some.injEq] at hstep
        subst hstep
        refine hconsistent.of_same rfl rfl fun k hk => ?_
        -- the key was found before its update was made
        rcases List.mem_cons.mp hk with rfl | hold
        · exact Or.inr (by rw [hget]; rfl)
        · exact Or.inl hold
  | revokeUpdate id now =>
      simp only [step, Option.ite_none_right_eq_some, Option.some.injEq] at hstep
      obtain ⟨hid, rfl⟩ := hstep
      exact hconsistent.revoke hid now
  | refresh id expiresAt =>
      simp only [step] at hstep
      split at hstep <;> (rw [Option.some.injEq] at hstep; subst hstep)
      · exact hconsistent.of_same rfl rfl fun k hk => Or.inl hk
      · exact hconsistent
  | refreshUpdate id expiresAt =>
      simp only [step, Option.ite_none_right_eq_some, Option.some.injEq] at hstep
      obtain ⟨-, rfl⟩ := hstep
      exact hconsistent.refresh id expiresAt _
  | list tenantId =>
      simp only [step, Option.some.injEq] at hstep
      exact hstep ▸ hconsistent

/-- In every reachable state the table and the log agree. -/
theorem run_consistent {actions : List (Action store.config)} {state : State}
    (hrun : Machine.run (step sha256 parseRfc3339 store) State.initial actions = some state) :
    Consistent sha256 store.config state :=
  Machine.run_invariant (Consistent sha256 store.config) (fun _ _ _ => step_consistent)
    (consistent_initial store.config) hrun

/-! ## What `verify` accepts -/

theorem hashSecret_injective (hinj : Function.Injective sha256) :
    Function.Injective (hashSecret sha256) := by
  intro first second heq
  have htext := Utf8.asBytes_injective (hinj heq)
  simpa using congrArg String.toList htext

theorem expiresAtPassed_eq_false {now : DateTime} {text : String} :
    expiresAtPassed parseRfc3339 now text = false ↔
      ∃ expiresAt, parseRfc3339 text = some expiresAt ∧ now < expiresAt := by
  unfold expiresAtPassed
  cases parseRfc3339 text with
  | none => simp
  | some expiresAt =>
      simp only [decide_eq_false_iff_not, Option.some.injEq, exists_eq_left', DateTime.le_def,
        DateTime.lt_def]
      omega

theorem unusable_eq_false {now : DateTime} {record : ApiKeyRecord} :
    (record.revokedAt.isSome ||
        (record.expiresAt.map (expiresAtPassed parseRfc3339 now)).getD false) = false ↔
      record.revokedAt = none ∧
        ∀ text, record.expiresAt = some text → expiresAtPassed parseRfc3339 now text = false := by
  rw [Bool.or_eq_false_iff, Option.isSome_eq_false_iff, Option.isNone_iff_eq_none]
  cases record.expiresAt <;> simp

/-- `verify` accepts the record under the id of the token when the secret is
right and the key is neither revoked nor expired. -/
theorem verifyRecord_eq_ok {config : ApiKeyConfig} {rawToken : List Char} {now : DateTime}
    {table : KeyTable} {record : ApiKeyRecord} :
    verifyRecord sha256 parseRfc3339 config rawToken now table = .ok record ↔
      ∃ parsed, parseToken rawToken config.keyPrefix = .ok (some parsed) ∧
        table.get? parsed.id = some record ∧
        (record.revokedAt = none ∧ ∀ text, record.expiresAt = some text →
          expiresAtPassed parseRfc3339 now text = false) ∧
        hashSecret sha256 parsed.secret = record.keyHash := by
  unfold verifyRecord
  cases hparse : parseToken rawToken config.keyPrefix with
  | error failure => simp [Bind.bind, Except.bind]
  | ok parsed =>
      simp only [Bind.bind, Except.bind, Except.ok.injEq]
      cases parsed with
      | none => simp
      | some parsed =>
          cases hget : table.get? parsed.id with
          | none => simp [hget]
          | some found =>
              -- a record was found, and the two guards decide
              simp only [Option.bind_some, hget, Option.map_some, Option.getD_some,
                Option.some.injEq, exists_eq_left', ← unusable_eq_false, verifyHash]
              by_cases hguards : (found.revokedAt.isSome ||
                  (found.expiresAt.map (expiresAtPassed parseRfc3339 now)).getD false) = false ∧
                  hashSecret sha256 parsed.secret = found.keyHash
              · simp only [hguards.1, hguards.2, decide_true, Bool.not_true, Bool.or_false,
                  Bool.false_eq_true, if_false, Except.ok.injEq]
                exact ⟨fun heq => heq ▸ ⟨rfl, hguards.1, rfl⟩, And.left⟩
              · have hrefused : (found.revokedAt.isSome ||
                    (found.expiresAt.map (expiresAtPassed parseRfc3339 now)).getD false ||
                    !decide (hashSecret sha256 parsed.secret = found.keyHash)) = true := by
                  rw [Bool.or_eq_true, Bool.not_eq_true', decide_eq_false_iff_not,
                    ← Bool.not_eq_false]
                  exact not_and_or.mp hguards
                rw [if_pos hrefused]
                refine iff_of_false (fun herror => by cases herror) ?_
                rintro ⟨rfl, hall⟩
                exact hguards hall

theorem verify_eq_ok {config : ApiKeyConfig} {rawToken : List Char} {now : DateTime}
    {table : KeyTable} {accepted : ApiKeyMeta} :
    verify sha256 parseRfc3339 config rawToken now table = .ok accepted ↔
      ∃ record, verifyRecord sha256 parseRfc3339 config rawToken now table = .ok record ∧
        record.intoMeta = accepted := by
  unfold verify
  cases verifyRecord sha256 parseRfc3339 config rawToken now table <;> simp [Except.map]

/-- In a reachable state `verify` accepts a token exactly when it was issued for
a key that has not been revoked and has not expired. -/
theorem verify_ok_iff (hinj : Function.Injective sha256) {state : State}
    (hconsistent : Consistent sha256 store.config state) (rawToken : List Char) (now : DateTime)
    (id : List Char) :
    (∃ accepted, verify sha256 parseRfc3339 store.config rawToken now state.table = .ok accepted ∧
        accepted.id = id) ↔
      Issued state.log id rawToken ∧ ¬ Revoked state.log id ∧
        Unexpired parseRfc3339 state.log id now := by
  constructor
  · rintro ⟨accepted, hverify, rfl⟩
    obtain ⟨record, hrecord, rfl⟩ := verify_eq_ok.mp hverify
    obtain ⟨parsed, hparse, hget, ⟨hrevoked, hexpired⟩, hhash⟩ := verifyRecord_eq_ok.mp hrecord
    have hid : record.intoMeta.id = parsed.id :=
      show record.id = parsed.id from Table.get?_key hget
    have hdescribes := hconsistent.records parsed.id record hget
    obtain ⟨ulid, secret, -, hstored, htokens⟩ := hdescribes.issued
    -- the stored hash is that of one secret
    have hsecret : parsed.secret = secret.text :=
      hashSecret_injective hinj (hhash.trans hstored)
    rw [hid]
    refine ⟨(htokens rawToken).mpr ?_, ?_, record.expiresAt, hdescribes.expiry, ?_⟩
    · rw [← hsecret]
      exact eq_of_parseToken hparse
    · rw [← hdescribes.revoked, hrevoked]
      simp
    · exact fun text htext => expiresAtPassed_eq_false.mp (hexpired text htext)
  · rintro ⟨hissued, hrevoked, expiry, hexpiry, hunexpired⟩
    obtain ⟨record, hget⟩ := Option.isSome_iff_exists.mp (hconsistent.issued id rawToken hissued)
    have hdescribes := hconsistent.records id record hget
    obtain ⟨ulid, secret, rfl, hstored, htokens⟩ := hdescribes.issued
    have htoken := (htokens rawToken).mp hissued
    rw [hdescribes.expiry, Option.some.injEq] at hexpiry
    refine ⟨record.intoMeta, verify_eq_ok.mpr ⟨record, ?_, rfl⟩,
      show record.id = ulid.text from Table.get?_key hget⟩
    refine verifyRecord_eq_ok.mpr ⟨⟨ulid.text, secret.text⟩, ?_, hget, ⟨?_, ?_⟩, hstored.symm⟩
    · rw [htoken]
      exact parseToken_formatToken store.valid ulid secret
    · rw [← hdescribes.revoked, Bool.not_eq_true, Option.isSome_eq_false_iff,
        Option.isNone_iff_eq_none] at hrevoked
      exact hrevoked
    · intro text htext
      exact expiresAtPassed_eq_false.mpr (hunexpired text (hexpiry ▸ htext))

/-- `list` returns the tenant's keys that have not been revoked. -/
theorem mem_list {state : State} (hconsistent : Consistent sha256 store.config state)
    {tenantId : String} {listed : ApiKeyMeta} (hlisted : listed ∈ list tenantId state.table) :
    listed.tenantId = tenantId ∧ ¬ Revoked state.log listed.id := by
  obtain ⟨record, hrecord, rfl⟩ := List.mem_map.mp hlisted
  rw [List.mem_filter, Bool.and_eq_true, decide_eq_true_eq] at hrecord
  obtain ⟨hstored, htenant, hkept⟩ := hrecord
  refine ⟨htenant, ?_⟩
  have hget : state.table.get? record.id = some record := Table.get?_eq_some.mpr ⟨hstored, rfl⟩
  rw [ApiKeyRecord.intoMeta, ← (hconsistent.records record.id record hget).revoked,
    Option.isNone_iff_eq_none.mp hkept]
  simp

/-- No step takes an event back. -/
theorem step_log {state next : State} {action : Action store.config}
    (hstep : step sha256 parseRfc3339 store state action = some next) {event : Event}
    (hevent : event ∈ state.log) : event ∈ next.log := by
  cases action with
  | create request ulid secret now =>
      simp only [step] at hstep
      split at hstep <;> (rw [Option.some.injEq] at hstep; subst hstep)
      · exact hevent
      · exact List.mem_cons_of_mem _ hevent
  | verify rawToken now later =>
      simp only [step] at hstep
      split at hstep
      · rw [Option.some.injEq] at hstep
        exact hstep ▸ hevent
      · split at hstep <;> (rw [Option.some.injEq] at hstep; subst hstep) <;> exact hevent
  | touch id now =>
      simp only [step, Option.ite_none_right_eq_some, Option.some.injEq] at hstep
      obtain ⟨-, rfl⟩ := hstep
      exact hevent
  | revoke id =>
      simp only [step] at hstep
      split at hstep <;> (rw [Option.some.injEq] at hstep; subst hstep) <;> exact hevent
  | revokeUpdate id now =>
      simp only [step, Option.ite_none_right_eq_some, Option.some.injEq] at hstep
      obtain ⟨-, rfl⟩ := hstep
      exact List.mem_cons_of_mem _ hevent
  | refresh id expiresAt =>
      simp only [step] at hstep
      split at hstep <;> (rw [Option.some.injEq] at hstep; subst hstep) <;> exact hevent
  | refreshUpdate id expiresAt =>
      simp only [step, Option.ite_none_right_eq_some, Option.some.injEq] at hstep
      obtain ⟨-, rfl⟩ := hstep
      exact List.mem_cons_of_mem _ hevent
  | list tenantId =>
      simp only [step, Option.some.injEq] at hstep
      exact hstep ▸ hevent

/-- **The life of an API key**: after every run `verify` accepts a token for a
key exactly when the `create` of the key returned it, the key was never revoked
and it has not expired; and nothing that runs later makes a revoked key verify
again. -/
theorem apiKey_lifecycle (hinj : Function.Injective sha256)
    (parseRfc3339 : String → Option DateTime) (store : ApiKeyStore)
    (actions : List (Action store.config)) (state : State)
    (hrun : Machine.run (step sha256 parseRfc3339 store) State.initial actions = some state) :
    (∀ (rawToken : List Char) (now : DateTime) (id : List Char),
      (∃ accepted,
          verify sha256 parseRfc3339 store.config rawToken now state.table = .ok accepted ∧
          accepted.id = id) ↔
        Issued state.log id rawToken ∧ ¬ Revoked state.log id ∧
          Unexpired parseRfc3339 state.log id now) ∧
    ∀ (later : List (Action store.config)) (final : State) (id : List Char),
      Machine.run (step sha256 parseRfc3339 store) state later = some final →
      Revoked state.log id → ∀ (rawToken : List Char) (now : DateTime) (accepted : ApiKeyMeta),
        verify sha256 parseRfc3339 store.config rawToken now final.table = .ok accepted →
          accepted.id ≠ id := by
  refine ⟨verify_ok_iff hinj (run_consistent hrun), ?_⟩
  rintro later final id hlater hrevoked rawToken now accepted hverify rfl
  have hconsistent := run_consistent
    (Machine.run_append_eq_some.mpr ⟨state, hrun, hlater⟩)
  have hstill : Revoked final.log accepted.id :=
    Machine.run_invariant (fun state => Revoked state.log accepted.id)
      (fun _ _ _ hevent hstep => step_log hstep hevent) hrevoked hlater
  exact ((verify_ok_iff hinj hconsistent rawToken now accepted.id).mp
    ⟨accepted, hverify, rfl⟩).2.1 hstill

/-! ## A run on fixed inputs -/

/-- SHA-256 on the secrets below. -/
def sampleSha256 : List UInt8 → String :=
  digestWith
    [(asBytes "0123456789abcdefghijklmnopqrstuv",
        "73337f479fe170d73e53e247f3052e4243cc9c2a0ffa621853d9385c619efb77"),
      (asBytes "vutsrqponmlkjihgfedcba9876543210",
        "08c9a55b55c249f312f31ebe1c123ca170412bb86db069e27a221ca38b1b735c")]

theorem sampleSha256_inj : Function.Injective sampleSha256 :=
  digestWith_injective ⟨by decide +kernel, by decide +kernel⟩

/-- `parse_from_rfc3339` on the expiry below. -/
def sampleParse (text : String) : Option DateTime :=
  if text = "2027-01-01T00:00:00Z" then some (ofSecs 1798761600) else none

/-- A store with the default configuration. -/
def sampleStore : ApiKeyStore := ⟨{}, by decide⟩

theorem forall_mem_of_all {text alphabet : List Char}
    (hall : text.all (fun c => alphabet.contains c) = true) : ∀ c ∈ text, c ∈ alphabet :=
  fun c hc => List.contains_iff_mem.mp (List.all_eq_true.mp hall c hc)

/-- Two ULIDs. -/
def firstUlid : Ulid :=
  ⟨"01JQXK5M3N8R4T6V2W9Y0ZABCD".toList, by decide, forall_mem_of_all (by decide)⟩

/-- Another one. -/
def secondUlid : Ulid :=
  ⟨"01JQXK5M3N8R4T6V2W9Y0ZABCE".toList, by decide, forall_mem_of_all (by decide)⟩

/-- The secret of the first key. -/
def firstSecret : Secret 32 :=
  ⟨"0123456789abcdefghijklmnopqrstuv".toList, by decide, forall_mem_of_all (by decide)⟩

/-- The secret of the second key. -/
def secondSecret : Secret 32 :=
  ⟨"vutsrqponmlkjihgfedcba9876543210".toList, by decide, forall_mem_of_all (by decide)⟩

/-- Two keys are created; the second one is revoked while a refresh of it is on
its way. -/
def sampleRun : List (Action sampleStore.config) :=
  [.create ⟨"tenant", "first", ["read"], some "2027-01-01T00:00:00Z"⟩ firstUlid firstSecret "t0",
    .create ⟨"tenant", "second", [], none⟩ secondUlid secondSecret "t1",
    .verify (formatToken "modo".toList secondUlid.text secondSecret.text) (ofSecs 1767225600)
      (ofSecs 1767225600),
    .refresh secondUlid.text (some "2027-01-01T00:00:00Z"),
    .revoke secondUlid.text,
    .revokeUpdate secondUlid.text "t2",
    .refreshUpdate secondUlid.text (some "2027-01-01T00:00:00Z"),
    .touch secondUlid.text "t3"]

/-- The first token verifies in 2026, and the second key does not. -/
theorem sampleRun_verifies :
    ∃ state,
      Machine.run (step sampleSha256 sampleParse sampleStore) State.initial sampleRun =
        some state ∧
      (∃ accepted, verify sampleSha256 sampleParse sampleStore.config
          (formatToken "modo".toList firstUlid.text firstSecret.text) (ofSecs 1767225600)
          state.table = .ok accepted ∧ accepted.id = firstUlid.text) ∧
      ∀ rawToken now accepted,
        verify sampleSha256 sampleParse sampleStore.config rawToken now state.table =
          .ok accepted → accepted.id ≠ secondUlid.text := by
  have hany : (Machine.run (step sampleSha256 sampleParse sampleStore) State.initial
      sampleRun).any (fun state => decide
        (.created firstUlid.text (formatToken "modo".toList firstUlid.text firstSecret.text)
            (some "2027-01-01T00:00:00Z") ∈ state.log ∧
          .revoked firstUlid.text ∉ state.log ∧
          lastExpiry firstUlid.text state.log = some (some "2027-01-01T00:00:00Z") ∧
          .revoked secondUlid.text ∈ state.log)) = true := by
    decide
  obtain ⟨state, hrun, hissued, hkept, hexpiry, hrevoked⟩ := Machine.exists_final hany
  have hlife := apiKey_lifecycle sampleSha256_inj sampleParse sampleStore sampleRun state hrun
  refine ⟨state, hrun, (hlife.1 _ _ firstUlid.text).mpr ⟨⟨_, hissued⟩, hkept, _, hexpiry, ?_⟩, ?_⟩
  · intro text htext
    rw [Option.some.injEq] at htext
    subst htext
    exact ⟨ofSecs 1798761600, rfl, by decide⟩
  · exact hlife.2 [] state secondUlid.text rfl hrevoked

end Modo.ApiKey
