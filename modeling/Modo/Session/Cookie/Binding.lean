import Modo.Client.Info
import Modo.Session.Cookie.Request
import Modo.Session.Resurrection

/-!
# A session belongs to one browser

A cookie can be copied.  The row of a session keeps the fingerprint of the request that created it,
no statement changes it, and the middleware compares it with the fingerprint of every request that
shows a token of the session.

`session_binding` says what comes of this when the statements of any requests are interleaved in any
order: a request is given the session of its cookie exactly when its headers are those of the login
that created the session, and otherwise the session is lost for everyone, as soon as the statement
that destroys it has run.
-/

namespace Modo.Sessions.Cookie

open Client (SameBrowser fingerprintOf fingerprintOf_eq_iff ofRequest)
open Http (HeaderMap)

variable {sha256 : List UInt8 → String}

/-! ## The login of a session -/

/-- The session was created for a client with this fingerprint. -/
def CreatedWith (statements : List Statement) (id : String) (fingerprint : Option String) : Prop :=
  ∃ ttlSecs info userId data token now,
    .insert ttlSecs info userId data id token now ∈ statements ∧ info.fingerprint = fingerprint

/-- The session was created by a request of the browser that sends these headers. -/
def LoggedIn (sha256 : List UInt8 → String) (statements : List Statement) (id : String)
    (headers : HeaderMap) : Prop :=
  ∃ login, CreatedWith statements id (some (fingerprintOf sha256 login)) ∧
    SameBrowser login headers

/-- Sessions are created by requests, which know their client from the headers. -/
def FromRequests (sha256 : List UInt8 → String) (statements : List Statement) : Prop :=
  ∀ id fingerprint, CreatedWith statements id fingerprint →
    ∃ headers, fingerprint = some (fingerprintOf sha256 headers)

/-- The row of a session has the fingerprint it was created with. -/
theorem executeAll_fingerprint {statements : List Statement} {state : StoreState}
    (hrun : executeAll sha256 .initial statements = some state) {id : String} {row : Row}
    (hget : state.table.get? id = some row) :
    ∃ fingerprint, CreatedWith statements id fingerprint ∧
      row.session.fingerprint = fingerprint.getD "" := by
  induction statements using List.reverseRecOn generalizing state row with
  | nil =>
      cases hrun
      simp [StoreState.initial] at hget
  | append_singleton statements statement ih =>
      obtain ⟨middle, hbefore, hlast⟩ := Machine.run_append_eq_some.mp hrun
      have hstep := Machine.run_singleton_eq_some.mp hlast
      rcases execute_origin hstep hget with ⟨old, hold, hsame⟩ |
        ⟨ttlSecs, info, userId, data, token, now, rfl, -, -, rfl⟩
      · obtain ⟨fingerprint, hcreated, hrow⟩ := ih hbefore hold
        obtain ⟨ttlSecs, info, userId, data, token, now, hmem, hinfo⟩ := hcreated
        exact ⟨fingerprint, ⟨ttlSecs, info, userId, data, token, now,
          List.mem_append_left _ hmem, hinfo⟩,
          (congrArg Origin.fingerprint hsame).symm.trans hrow⟩
      · exact ⟨info.fingerprint, ⟨ttlSecs, info, userId, data, token, now, by simp, rfl⟩, rfl⟩

theorem mem_ids_of_created {statements : List Statement} {state : StoreState}
    (hrun : executeAll sha256 .initial statements = some state) {id : String}
    {fingerprint : Option String} (hcreated : CreatedWith statements id fingerprint) :
    id ∈ state.ids := by
  obtain ⟨ttlSecs, info, userId, data, token, now, hmem, -⟩ := hcreated
  obtain ⟨before, after, rfl⟩ := List.append_of_mem hmem
  obtain ⟨middle, -, hlater⟩ := Machine.run_append_eq_some.mp hrun
  obtain ⟨next, hstep, hrest⟩ := Machine.run_cons_eq_some.mp hlater
  simp only [execute, Option.ite_none_left_eq_some, Option.some.injEq] at hstep
  obtain ⟨-, rfl⟩ := hstep
  exact Machine.run_invariant (fun state => id ∈ state.ids)
    (fun _ _ _ hid hstep => (execute_issued_mono hstep).1 id hid) List.mem_cons_self hrest

/-- A session is created once. -/
theorem created_unique {statements : List Statement} {state : StoreState}
    (hrun : executeAll sha256 .initial statements = some state) {id : String}
    {first second : Option String} (hfirst : CreatedWith statements id first)
    (hsecond : CreatedWith statements id second) : first = second := by
  induction statements using List.reverseRecOn generalizing state with
  | nil =>
      obtain ⟨ttlSecs, info, userId, data, token, now, hmem, -⟩ := hfirst
      cases hmem
  | append_singleton statements statement ih =>
      obtain ⟨middle, hbefore, hlast⟩ := Machine.run_append_eq_some.mp hrun
      have hstep := Machine.run_singleton_eq_some.mp hlast
      -- a login that is not the last statement has its id issued before that
      have hsplit : ∀ {fingerprint : Option String},
          CreatedWith (statements ++ [statement]) id fingerprint →
          CreatedWith statements id fingerprint ∨ id ∉ middle.ids ∧
            ∃ ttlSecs info userId data token now,
              statement = .insert ttlSecs info userId data id token now ∧
                info.fingerprint = fingerprint := by
        rintro fingerprint ⟨ttlSecs, info, userId, data, token, now, hmem, hinfo⟩
        rcases List.mem_append.mp hmem with hearlier | hhere
        · exact .inl ⟨ttlSecs, info, userId, data, token, now, hearlier, hinfo⟩
        · obtain rfl := List.mem_singleton.mp hhere
          simp only [execute, Option.ite_none_left_eq_some, not_or] at hstep
          exact .inr ⟨hstep.1.1, ttlSecs, info, userId, data, token, now, rfl, hinfo⟩
      rcases hsplit hfirst with hearlier |
        ⟨hfresh, ttlSecs, info, userId, data, token, now, rfl, rfl⟩
      · rcases hsplit hsecond with hearlier' | ⟨hfresh, -⟩
        · exact ih hbefore hearlier hearlier'
        · exact absurd (mem_ids_of_created hbefore hearlier) hfresh
      · rcases hsplit hsecond with hearlier' | ⟨-, _, _, _, _, _, _, hsame, rfl⟩
        · exact absurd (mem_ids_of_created hbefore hearlier') hfresh
        · cases hsame
          rfl

/-! ## What a request is given -/

/-- A session that is read is given to a request with its fingerprint; any other request destroys
it. -/
theorem load_of_read {config : CookieSessionsConfig} (hvalidate : config.validateFingerprint = true)
    (info : ClientInfo) {cookie : Option (List Char)} {token : SessionToken}
    (hcookie : cookieToken cookie = some token) {call : LoadCall} (hok : call.readOk = true)
    {table : SessionTable} {session : SessionData}
    (hread : readByToken sha256 token call.readNow table = some session) :
    (info.fingerprint = some session.fingerprint →
      (load sha256 config info cookie call table).1.currentSession = some session) ∧
    (info.fingerprint ≠ some session.fingerprint →
      (load sha256 config info cookie call table).1.currentSession = none ∧
        (call.destroyOk = true →
          (load sha256 config info cookie call table).2 = destroy session.id table)) := by
  unfold load
  simp only [hcookie, readSession, hok, if_true, hread, hvalidate, true_and]
  constructor
  · intro hsame
    rw [if_neg (not_not.mpr hsame)]
  · intro hother
    rw [if_pos hother]
    refine ⟨rfl, fun hdestroy => ?_⟩
    rw [if_pos hdestroy]

/-- A session that was destroyed is not read again. -/
theorem destroyed_stays {statements before after : List Statement} {state final : StoreState}
    (hrun : executeAll sha256 .initial statements = some state) {id : String} {row : Row}
    (hget : state.table.get? id = some row)
    (hlater : executeAll sha256 state (before ++ .destroy id :: after) = some final)
    {token : SessionToken} {now : DateTime} {found : SessionData}
    (hread : readByToken sha256 token now final.table = some found) : found.id ≠ id := by
  rintro rfl
  obtain ⟨middle, hbefore, hrest⟩ := Machine.run_append_eq_some.mp hlater
  obtain ⟨next, hdestroy, hafter⟩ := Machine.run_cons_eq_some.mp hrest
  have hissued : found.id ∈ middle.ids :=
    Machine.run_invariant (fun state => found.id ∈ state.ids)
      (fun _ _ _ hid hstep => (execute_issued_mono hstep).1 found.id hid)
      ((executeAll_issued hrun).ids found.id row hget) hbefore
  cases hdestroy
  have hnone : (destroy found.id middle.table).get? found.id = none := by
    rw [get?_destroy, if_pos rfl]
  have hgone := executeAll_get?_eq_none hafter hissued hnone
  obtain ⟨other, hother, -⟩ := get?_of_readByTokenHash hread
  cases hgone.symm.trans hother

/-- **A session belongs to one browser**: however the statements of any requests were interleaved,
a request that shows a token of a session is given the session if its headers are those of the
login that created it, and destroys the session otherwise; once it has done so no request reads
the session again. -/
theorem session_binding (hinj : Function.Injective sha256) (config : CookieSessionsConfig)
    (hvalidate : config.validateFingerprint = true) (statements : List Statement)
    (state : StoreState) (hrun : executeAll sha256 .initial statements = some state)
    (hlogins : FromRequests sha256 statements) (ip : Option String) (headers : HeaderMap)
    (cookie : Option (List Char)) (token : SessionToken)
    (hcookie : cookieToken cookie = some token) (call : LoadCall) (hok : call.readOk = true)
    (session : SessionData)
    (hread : readByToken sha256 token call.readNow state.table = some session) :
    (LoggedIn sha256 statements session.id headers →
      (load sha256 config (ofRequest sha256 ip headers) cookie call state.table).1.currentSession =
        some session) ∧
    (¬LoggedIn sha256 statements session.id headers →
      (load sha256 config (ofRequest sha256 ip headers) cookie call state.table).1.currentSession =
          none ∧
        (call.destroyOk = true →
          (load sha256 config (ofRequest sha256 ip headers) cookie call state.table).2 =
            destroy session.id state.table) ∧
        ∀ before after final,
          executeAll sha256 state (before ++ .destroy session.id :: after) = some final →
          ∀ other now found, readByToken sha256 other now final.table = some found →
            found.id ≠ session.id) := by
  have hload := load_of_read hvalidate (ofRequest sha256 ip headers) hcookie hok hread
  rw [Client.fingerprint_ofRequest] at hload
  obtain ⟨hgiven, hrefused⟩ := hload
  obtain ⟨row, hget, rfl, -⟩ := get?_of_readByTokenHash hread
  obtain ⟨fingerprint, hcreated, hrow⟩ := executeAll_fingerprint hrun hget
  obtain ⟨login, rfl⟩ := hlogins row.session.id fingerprint hcreated
  have hsame : some (fingerprintOf sha256 headers) = some row.session.fingerprint ↔
      SameBrowser login headers := by
    rw [hrow, Option.getD_some, Option.some.injEq, eq_comm]
    exact fingerprintOf_eq_iff hinj
  constructor
  · rintro ⟨other, hother, hsent⟩
    apply hgiven
    rw [hrow, ← created_unique hrun hother hcreated, Option.getD_some]
    exact congrArg some ((fingerprintOf_eq_iff hinj).mpr hsent).symm
  · intro hnot
    have hother : ¬SameBrowser login headers := fun hbrowser => hnot ⟨login, hcreated, hbrowser⟩
    obtain ⟨hnone, hdestroys⟩ := hrefused (hsame.not.mpr hother)
    exact ⟨hnone, hdestroys, fun before after final hlater other now found hfound =>
      destroyed_stays hrun hget hlater hfound⟩

/-- The headers of a browser with a language. -/
def browserHeaders (language : String) : HeaderMap :=
  [("user-agent", Http.ofText "Firefox/140.0".toList),
    ("accept-language", Http.ofText language.toList),
    ("accept-encoding", Http.ofText "gzip".toList)]

/-- SHA-256 on a token and on the fingerprints of two browsers. -/
def bindingDigests : List (List UInt8 × String) :=
  [(List.replicate 32 0, "66687aadf862bd776c8fc18b8e9f8e20089714856ee233b3902a591d0d5f2925"),
    (Client.fingerprintBytes "Firefox/140.0".toList "en".toList "gzip".toList,
      "2d0580e86676e00ba7ff11f143cd49ec46b50ab40d784c00c1acf47536a522e1"),
    (Client.fingerprintBytes "Firefox/140.0".toList "de".toList "gzip".toList,
      "0fd2128e1f8ac1cdb89ff32375897f13920b0ae1da8fa88946f7820c198e82c9")]

theorem bindingDigests_separates : Separates bindingDigests :=
  ⟨by decide +kernel, by decide +kernel⟩

/-- The login of the first browser. -/
def bindingRun : List Statement :=
  [.insert 3600 (ofRequest (digestWith bindingDigests) none (browserHeaders "en")) "user" none
    "session" (sampleToken 0) (.ofSecs 1767225600)]

/-- A request of the second browser is read a minute later. -/
def bindingCall : LoadCall := ⟨true, .ofSecs 1767225660, true, .ofSecs 1767225660⟩

/-- The cookie is of no use to the second browser, and after that to nobody. -/
theorem session_binding_copied :
    ∃ state, executeAll (digestWith bindingDigests) .initial bindingRun = some state ∧
      ¬LoggedIn (digestWith bindingDigests) bindingRun "session" (browserHeaders "de") ∧
      ∀ final, executeAll (digestWith bindingDigests) state [.destroy "session"] = some final →
        ∀ other now found, readByToken (digestWith bindingDigests) other now final.table =
          some found → found.id ≠ "session" := by
  have hlogins : FromRequests (digestWith bindingDigests) bindingRun := by
    rintro id fingerprint ⟨ttlSecs, info, userId, data, token, now, hmem, rfl⟩
    have hinfo : info = ofRequest (digestWith bindingDigests) none (browserHeaders "en") := by
      simp only [bindingRun, List.mem_singleton, Statement.insert.injEq] at hmem
      exact hmem.2.1
    exact ⟨browserHeaders "en", congrArg ClientInfo.fingerprint hinfo⟩
  have hany : (executeAll (digestWith bindingDigests) .initial bindingRun).any (fun state => decide
      ((readByToken (digestWith bindingDigests) (sampleToken 0) bindingCall.readNow
          state.table).map SessionData.id = some "session" ∧
        (load (digestWith bindingDigests) {}
          (ofRequest (digestWith bindingDigests) none (browserHeaders "de"))
          (some (sampleToken 0).asHex) bindingCall state.table).1.currentSession = none)) =
      true := by
    decide +kernel
  obtain ⟨state, hrun, hfound, hrefused⟩ := Machine.exists_final hany
  obtain ⟨session, hread, hid⟩ := Option.map_eq_some_iff.mp hfound
  obtain ⟨hgiven, hdestroyed⟩ := session_binding (digestWith_injective bindingDigests_separates) {}
    rfl bindingRun state hrun hlogins none (browserHeaders "de")
    (some (sampleToken 0).asHex) (sampleToken 0) (SessionToken.fromHex_asHex (sampleToken 0))
    bindingCall rfl session hread
  rw [hid] at hgiven hdestroyed
  have hother : ¬LoggedIn (digestWith bindingDigests) bindingRun "session"
      (browserHeaders "de") := by
    intro hlogged
    cases hrefused.symm.trans (hgiven hlogged)
  exact ⟨state, hrun, hother, (hdestroyed hother).2.2 [] []⟩

end Modo.Sessions.Cookie
