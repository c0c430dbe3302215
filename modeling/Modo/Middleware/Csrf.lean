import Modo.Http.Browser
import Modo.Lib.Machine

/-!
# The CSRF middleware

A signed cookie holds a token, and a request with an unsafe method has to send the same token
in a header.  A request with an exempt method gets the token of its cookie, or a new one with
a `Set-Cookie` field where the cookie does not verify.

Below the middleware stands a browser with any number of tabs: requests go out with the
cookie of that moment, are answered in any order, and their responses arrive in any order.
Once nothing is under way and the cookie holds a token, that token is the only one: every
page that is opened gets it, and an unsafe request passes exactly when it sends it
(`settled_run`), as long as the middleware can read its cookie among the others (`Legible`).
A first visit on its own is enough to get there (`csrf_session`).
-/

namespace Modo.Csrf

open Http

/-- `CsrfConfig`, without the field name that nothing reads. -/
structure CsrfConfig where
  cookieName : String
  headerName : String
  ttlSecs : ℕ
  exemptMethods : List (List Char)

/-- `CsrfConfig::default`. -/
def CsrfConfig.default : CsrfConfig where
  cookieName := "_csrf"
  headerName := "X-CSRF-Token"
  ttlSecs := 21600
  exemptMethods := ["GET".toList, "HEAD".toList, "OPTIONS".toList]

/-- A request, with the `CsrfToken` in its extensions. -/
structure Request where
  method : List Char
  headers : HeaderMap
  csrfToken : Option (List Char)

/-- A response, with the `CsrfToken` and the message of the `Error` in its extensions. -/
structure Response where
  status : ℕ
  headers : HeaderMap
  csrfToken : Option (List Char)
  error : Option (List Char)

section Middleware

variable (opaqueBytes : Bool) (jar : SignedJar) (config : CsrfConfig)

/-- `CsrfService::sign_token`. -/
def signToken (token : List Char) : List Char := jar.add token

/-- `CsrfService::verify_token`. -/
def verifyToken (signedValue : List Char) : Option (List Char) := jar.get signedValue

/-- `CsrfService::build_set_cookie`. -/
def buildSetCookie (signedValue : List Char) : List Char :=
  config.cookieName.toList ++ '=' ::
    (signedValue ++ Flash.attributes true false .lax config.ttlSecs)

/-- `CsrfService::is_exempt`. -/
def isExempt (method : List Char) : Bool :=
  config.exemptMethods.any fun exempt => Text.eqIgnoreAsciiCase exempt method

/-- `CsrfService::extract_submitted_token`. -/
def extractSubmittedToken (headers : HeaderMap) : Option (List Char) :=
  headers.getStr config.headerName

/-- The token of the cookie of a request. -/
def cookieToken (headers : HeaderMap) : Option (List Char) :=
  (extractCookieValue config.cookieName headers).bind (verifyToken jar)

/-- The rejection of an unsafe request. -/
def forbidden : Response where
  status := 403
  headers := [("content-type", ofText "application/json".toList)]
  csrfToken := none
  error := some ("CSRF validation failed: missing or invalid ".toList ++ config.headerName.toList)

/-- `CsrfService::call`; `ulid` is the token that is made if there is none. -/
def call {E : Type*} (inner : Request → Except E Response) (ulid : List Char)
    (request : Request) : Except E Response :=
  if isExempt config request.method then
    let (token, setCookieValue) :=
      match cookieToken jar config request.headers with
      | some token => (token, none)
      | none => (ulid, some (buildSetCookie config (signToken jar ulid)))
    match inner { request with csrfToken := some token } with
    | .error error => .error error
    | .ok response =>
        match setCookieValue.bind (fromStr opaqueBytes) with
        | some field =>
            .ok { response with
              headers := response.headers ++ [("set-cookie", field)]
              csrfToken := some token }
        | none => .ok { response with csrfToken := some token }
  else
    let verified :=
      ((cookieToken jar config request.headers).bind fun cookieToken =>
        (extractSubmittedToken config request.headers).map fun headerToken =>
          decide (cookieToken = headerToken)).getD false
    if verified then inner request else .ok (forbidden config)

end Middleware

/-! ## The browser -/

/-- A browser and what is under way between it and the server. -/
structure World where
  /-- The value that is stored under the name of the cookie. -/
  cookie : Option HeaderValue
  requests : List Request
  responses : List Response
  /-- The tokens in the pages of its tabs. -/
  pages : List (List Char)
  /-- What was answered so far. -/
  served : List (Request × Response)

inductive Action where
  /-- A request that the browser sends with its cookies, for any tab or for another site. -/
  | send (method : List Char) (headers : HeaderMap) (others : List HeaderValue)
  /-- The server answers a request; a ULID stands ready. -/
  | serve (index : ℕ) (ulid : List Char)
  /-- A response arrives. -/
  | receive (index : ℕ)
  /-- The cookie expires or is deleted. -/
  | forget

section Protocol

variable (opaqueBytes : Bool) (jar : SignedJar) (config : CsrfConfig)
  (inner : Request → Response)

/-- The scanner of the middleware. -/
abbrev scanner : Scanner := .csrf config.cookieName

/-- The answer of the server. -/
def answer (ulid : List Char) (request : Request) : Response :=
  match call opaqueBytes jar config (E := Empty) (fun request => .ok (inner request)) ulid
    request with
  | .ok response => response

def step (world : World) : Action → Option World
  | .send method headers others =>
      some { world with
        requests := world.requests ++
          [⟨method, requestFields config.cookieName others world.cookie headers, none⟩] }
  | .serve index ulid =>
      (world.requests[index]?).map fun request =>
        let response := answer opaqueBytes jar config inner ulid request
        { world with
          requests := world.requests.eraseIdx index
          responses := world.responses ++ [response]
          served := world.served ++ [(request, response)] }
  | .receive index =>
      (world.responses[index]?).map fun response =>
        { world with
          responses := world.responses.eraseIdx index
          cookie := storeAll config.cookieName world.cookie response.headers
          pages := world.pages ++ response.csrfToken.toList }
  | .forget => some { world with cookie := none }

/-- The other cookies of a request that is sent are visible ASCII and have other names.  Beside one
that is not, the middleware does not find its cookie. -/
def Legible : Action → Prop
  | .send _ headers others =>
      isText others = true ∧ others.findSome? (scanner config).ofPair = none ∧
        (scanner config).cookie headers = none
  | _ => True

instance : DecidablePred (Legible config)
  | .send _ headers others => inferInstanceAs (Decidable
      (isText others = true ∧ others.findSome? (scanner config).ofPair = none ∧
        (scanner config).cookie headers = none))
  | .serve .. | .receive _ | .forget => isTrue trivial

/-- The answer to a request whose cookie holds `token`. -/
def settledAnswer (token : List Char) (request : Request) : Response :=
  if isExempt config request.method then
    { inner { request with csrfToken := some token } with csrfToken := some token }
  else if extractSubmittedToken config request.headers = some token then inner request
  else forbidden config

/-- The token that the middleware reads from a stored value. -/
def tokenOf (value : HeaderValue) : Option (List Char) :=
  ((scanner config).ofStored value).bind (verifyToken jar)

/-- The cookie holds `token`, and nothing under way carries or stores another one. -/
structure Settled (token : List Char) (world : World) : Prop where
  cookie : world.cookie.bind (tokenOf jar config) = some token
  requests : ∀ request ∈ world.requests, cookieToken jar config request.headers = some token
  responses : ∀ response ∈ world.responses,
    (∀ stored, storeAll config.cookieName stored response.headers = stored) ∧
      ∀ page ∈ response.csrfToken, page = token

/-- What the rest of the program leaves to the middleware: it does not store the cookie, and
it does not set the extension. -/
structure LeavesCookie : Prop where
  storeAll_eq : ∀ request stored, storeAll config.cookieName stored (inner request).headers = stored
  csrfToken_eq : ∀ request, (inner request).csrfToken = none

end Protocol

section Settled

variable {opaqueBytes : Bool} {jar : SignedJar} {config : CsrfConfig} {inner : Request → Response}
  {token : List Char} {world next : World}

/-- The cookie of a request that is sent. -/
theorem cookieToken_requestFields {method : List Char} {headers : HeaderMap}
    {others : List HeaderValue} (hlegible : Legible config (.send method headers others))
    (stored : Option HeaderValue) :
    cookieToken jar config (requestFields config.cookieName others stored headers) =
      stored.bind (tokenOf jar config) := by
  obtain ⟨hothers, hnone, hheaders⟩ := hlegible
  have hholds : ¬(scanner config).Holds others := by
    rw [← findSome?_ne_none_iff, not_not]
    exact hnone
  have hcookie : extractCookieValue config.cookieName
      (requestFields config.cookieName others stored headers) =
        stored.bind (scanner config).ofStored :=
    Scanner.cookie_requestFields hothers hholds stored hheaders
  rw [cookieToken, hcookie]
  cases stored <;> rfl

theorem answer_of_settled (ulid : List Char) {request : Request}
    (hcookie : cookieToken jar config request.headers = some token) :
    answer opaqueBytes jar config inner ulid request =
      settledAnswer config inner token request := by
  rw [answer, call, settledAnswer, hcookie]
  cases hexempt : isExempt config request.method with
  | true => rfl
  | false =>
      cases hsubmitted : extractSubmittedToken config request.headers with
      | none => rfl
      | some submitted =>
          by_cases heq : token = submitted
          · subst heq
            simp
          · simp [heq, Ne.symm heq]

theorem settledAnswer_spec (hinner : LeavesCookie config inner) (token : List Char)
    (request : Request) :
    (∀ stored, storeAll config.cookieName stored
        (settledAnswer config inner token request).headers = stored) ∧
      ∀ page ∈ (settledAnswer config inner token request).csrfToken, page = token := by
  unfold settledAnswer
  split
  · exact ⟨hinner.storeAll_eq _, fun page hpage => (Option.some.inj hpage).symm⟩
  · split
    · refine ⟨hinner.storeAll_eq request, ?_⟩
      rw [hinner.csrfToken_eq]
      intro page hpage
      cases hpage
    · refine ⟨fun stored => rfl, ?_⟩
      intro page hpage
      cases hpage

/-- What the steps of a settled world add to it. -/
structure Continues (token : List Char) (world next : World) (config : CsrfConfig)
    (inner : Request → Response) : Prop where
  pages : ∃ opened, next.pages = world.pages ++ opened ∧ ∀ page ∈ opened, page = token
  served : ∃ answers, next.served = world.served ++ answers ∧
    ∀ answered ∈ answers, answered.2 = settledAnswer config inner token answered.1

theorem Continues.refl (world : World) : Continues token world world config inner where
  pages := ⟨[], (List.append_nil _).symm, fun _ hpage => nomatch hpage⟩
  served := ⟨[], (List.append_nil _).symm, fun _ hanswer => nomatch hanswer⟩

/-- A step adds at most one page and one answer. -/
theorem Continues.step {start : World} (hcontinues : Continues token start world config inner)
    (page : Option (List Char)) (answered : Option (Request × Response))
    (hpages : next.pages = world.pages ++ page.toList)
    (hserved : next.served = world.served ++ answered.toList)
    (hpage : ∀ opened ∈ page, opened = token)
    (hanswered : ∀ pair ∈ answered, pair.2 = settledAnswer config inner token pair.1) :
    Continues token start next config inner := by
  obtain ⟨⟨opened, hopened, hall⟩, answers, hanswers, hsettled⟩ := hcontinues
  constructor
  · refine ⟨opened ++ page.toList, by rw [hpages, hopened, List.append_assoc], ?_⟩
    intro other hother
    rcases List.mem_append.mp hother with hother | hother
    · exact hall other hother
    · exact hpage other (Option.mem_toList.mp hother)
  · refine ⟨answers ++ answered.toList, by rw [hserved, hanswers, List.append_assoc], ?_⟩
    intro other hother
    rcases List.mem_append.mp hother with hother | hother
    · exact hsettled other hother
    · exact hanswered other (Option.mem_toList.mp hother)

theorem settled_step (hinner : LeavesCookie config inner) {start : World} {action : Action}
    (hinv : Settled jar config token world ∧ Continues token start world config inner)
    (hforget : action ≠ .forget) (hlegible : Legible config action)
    (hstep : step opaqueBytes jar config inner world action = some next) :
    Settled jar config token next ∧ Continues token start next config inner := by
  obtain ⟨hsettled, hcontinues⟩ := hinv
  cases action with
  | send method headers others =>
      obtain rfl := Option.some.inj hstep
      refine ⟨⟨hsettled.cookie, ?_, hsettled.responses⟩, ?_⟩
      · intro request hrequest
        rcases List.mem_append.mp hrequest with hrequest | hrequest
        · exact hsettled.requests request hrequest
        · rw [List.mem_singleton.mp hrequest]
          exact (cookieToken_requestFields hlegible _).trans hsettled.cookie
      · exact hcontinues.step none none (List.append_nil _).symm (List.append_nil _).symm
          (fun _ hpage => nomatch hpage) fun _ hanswered => nomatch hanswered
  | serve index ulid =>
      obtain ⟨request, hrequest, rfl⟩ := Option.map_eq_some_iff.mp hstep
      have hanswer : answer opaqueBytes jar config inner ulid request =
          settledAnswer config inner token request :=
        answer_of_settled ulid (hsettled.requests request (List.mem_of_getElem? hrequest))
      refine ⟨⟨hsettled.cookie, ?_, ?_⟩, ?_⟩
      · intro other hother
        exact hsettled.requests other (List.mem_of_mem_eraseIdx hother)
      · intro response hresponse
        rcases List.mem_append.mp hresponse with hresponse | hresponse
        · exact hsettled.responses response hresponse
        · rw [List.mem_singleton.mp hresponse, hanswer]
          exact settledAnswer_spec hinner token request
      · refine hcontinues.step none (some _) (List.append_nil _).symm rfl
          (fun _ hpage => nomatch hpage) ?_
        rintro pair ⟨⟩
        exact hanswer
  | receive index =>
      obtain ⟨response, hresponse, rfl⟩ := Option.map_eq_some_iff.mp hstep
      obtain ⟨hstore, hpage⟩ := hsettled.responses response (List.mem_of_getElem? hresponse)
      refine ⟨⟨?_, hsettled.requests, ?_⟩, ?_⟩
      · rw [hstore]
        exact hsettled.cookie
      · intro other hother
        exact hsettled.responses other (List.mem_of_mem_eraseIdx hother)
      · exact hcontinues.step response.csrfToken none rfl (List.append_nil _).symm hpage
          fun _ hanswered => nomatch hanswered
  | forget => exact absurd rfl hforget

/-- In a settled world, whatever is sent, answered and received in which order, every page
that is opened gets the token, and the unsafe requests that pass are those that send it. -/
theorem settled_run (hinner : LeavesCookie config inner) (hsettled : Settled jar config token world)
    {actions : List Action} (hforget : .forget ∉ actions)
    (hlegible : ∀ action ∈ actions, Legible config action)
    (hrun : Machine.run (step opaqueBytes jar config inner) world actions = some next) :
    Settled jar config token next ∧ Continues token world next config inner := by
  apply Machine.run_invariant_of_allowed
    (fun state => Settled jar config token state ∧ Continues token world state config inner)
    (fun _ action => action ≠ .forget ∧ Legible config action)
    (fun _ _ _ hinv hallowed => settled_step hinner hinv hallowed.1 hallowed.2)
    ⟨hsettled, Continues.refl world⟩ _ hrun
  intro state action after htaken
  exact ⟨fun heq => hforget (heq ▸ htaken.mem), hlegible action htaken.mem⟩

end Settled

/-! ## The first visit -/

section FirstVisit

variable {opaqueBytes : Bool} {jar : SignedJar} {config : CsrfConfig} {inner : Request → Response}

/-- The field that a first visit stores. -/
theorem storeField_buildSetCookie (opaqueBytes : Bool) (hjar : jar.Signs)
    (hname : IsCookieName config.cookieName.toList)
    {ulid : List Char} (hulid : ∀ c ∈ ulid, isCookieChar c = true) :
    ∃ field, fromStr opaqueBytes (buildSetCookie config (signToken jar ulid)) = some field ∧
      (∀ stored, storeField config.cookieName stored field = some (ofText (jar.add ulid))) ∧
      tokenOf jar config (ofText (jar.add ulid)) = some ulid := by
  obtain ⟨hsigned, field, hfield, hstore⟩ :=
    storeField_signed opaqueBytes hjar hname hulid true false .lax config.ttlSecs
  refine ⟨field, hfield, hstore, ?_⟩
  have hstored : (scanner config).ofStored (ofText (jar.add ulid)) = some (jar.add ulid) :=
    Scanner.ofStored_plain hname hsigned rfl
  rw [tokenOf, hstored]
  exact hjar.get_add ulid

theorem storeAll_append (name : String) (stored : Option HeaderValue) (headers : HeaderMap)
    (field : HeaderValue) :
    storeAll name stored (headers ++ [("set-cookie", field)]) =
      storeField name (storeAll name stored headers) field := by
  have hfilter : setCookies (headers ++ [("set-cookie", field)]) =
      setCookies headers ++ [field] := by
    rw [setCookies, List.filter_append, List.map_append]
    rfl
  rw [storeAll, hfilter, List.foldl_append]
  rfl

/-- A request that is sent, answered and received with nothing else under way. -/
theorem run_visit {world middle : World} {method : List Char} {headers : HeaderMap}
    {others : List HeaderValue} {ulid : List Char}
    (hquiet : world.requests = [] ∧ world.responses = [])
    (hlegible : Legible config (.send method headers others))
    (hrun : Machine.run (step opaqueBytes jar config inner) world
      [.send method headers others, .serve 0 ulid, .receive 0] = some middle) :
    ∃ request, request.method = method ∧
      cookieToken jar config request.headers = world.cookie.bind (tokenOf jar config) ∧
      middle.cookie = storeAll config.cookieName world.cookie
        (answer opaqueBytes jar config inner ulid request).headers ∧
      middle.requests = [] ∧ middle.responses = [] ∧
      middle.pages = world.pages ++
        (answer opaqueBytes jar config inner ulid request).csrfToken.toList := by
  obtain ⟨cookie, requests, responses, pages, served⟩ := world
  obtain ⟨rfl, rfl⟩ := hquiet
  have hmiddle := Option.some.inj hrun
  refine ⟨⟨method, requestFields config.cookieName others cookie headers, none⟩, rfl,
    cookieToken_requestFields hlegible cookie, ?_⟩
  rw [← hmiddle]
  exact ⟨rfl, rfl, rfl, rfl⟩

/-- A visit with nothing else under way leaves a settled world, whose token the page gets. -/
theorem settled_of_visit (hjar : jar.Signs) (hname : IsCookieName config.cookieName.toList)
    (hinner : LeavesCookie config inner) {world middle : World} {method : List Char}
    {headers : HeaderMap} {others : List HeaderValue} {ulid : List Char}
    (hquiet : world.requests = [] ∧ world.responses = [])
    (hexempt : isExempt config method = true) (hulid : ∀ c ∈ ulid, isCookieChar c = true)
    (hlegible : Legible config (.send method headers others))
    (hrun : Machine.run (step opaqueBytes jar config inner) world
      [.send method headers others, .serve 0 ulid, .receive 0] = some middle) :
    ∃ token, middle.pages = world.pages ++ [token] ∧ Settled jar config token middle := by
  obtain ⟨request, hmethod, hcookie, hstored, hrequests, hresponses, hpages⟩ :=
    run_visit hquiet hlegible hrun
  subst hmethod
  -- nothing is under way afterwards, so only the cookie has to be looked at
  have hsettled : ∀ {token}, middle.cookie.bind (tokenOf jar config) = some token →
      Settled jar config token middle := by
    intro token htoken
    refine ⟨htoken, ?_, ?_⟩
    · rw [hrequests]
      exact fun _ hrequest => nomatch hrequest
    · rw [hresponses]
      exact fun _ hresponse => nomatch hresponse
  cases htoken : world.cookie.bind (tokenOf jar config) with
  | some token =>
      rw [answer_of_settled ulid (hcookie.trans htoken)] at hstored hpages
      refine ⟨token, ?_, hsettled ?_⟩
      · rw [hpages, settledAnswer, if_pos hexempt]
        rfl
      · rw [hstored, (settledAnswer_spec hinner token request).1]
        exact htoken
  | none =>
      obtain ⟨field, hfield, hstore, hverify⟩ :=
        storeField_buildSetCookie opaqueBytes hjar hname hulid
      have hanswer : answer opaqueBytes jar config inner ulid request =
          { inner { request with csrfToken := some ulid } with
            headers := (inner { request with csrfToken := some ulid }).headers ++
              [("set-cookie", field)]
            csrfToken := some ulid } := by
        rw [answer, call, hcookie, htoken]
        simp only [hexempt, if_true, Option.bind_some, hfield]
      rw [hanswer] at hstored hpages
      refine ⟨ulid, hpages, hsettled ?_⟩
      rw [hstored, storeAll_append, hstore]
      exact hverify

/-- **A session of a browser**: a visit with nothing else under way fixes a token.  Whatever
follows, in any order and as long as the cookie is kept and legible, every page gets that
token, no answer stores another cookie, and an unsafe request reaches the program exactly
when it sends the token. -/
theorem csrf_session (hjar : jar.Signs) (hname : IsCookieName config.cookieName.toList)
    (hinner : LeavesCookie config inner) {world middle final : World} {method : List Char}
    {headers : HeaderMap} {others : List HeaderValue} {ulid : List Char} {actions : List Action}
    (hquiet : world.requests = [] ∧ world.responses = [])
    (hexempt : isExempt config method = true) (hulid : ∀ c ∈ ulid, isCookieChar c = true)
    (hfirst : Machine.run (step opaqueBytes jar config inner) world
      [.send method headers others, .serve 0 ulid, .receive 0] = some middle)
    (hforget : .forget ∉ actions)
    (hlegible : ∀ action ∈ .send method headers others :: actions, Legible config action)
    (hrest : Machine.run (step opaqueBytes jar config inner) middle actions = some final) :
    ∃ token, middle.pages = world.pages ++ [token] ∧ Settled jar config token final ∧
      Continues token middle final config inner := by
  rw [List.forall_mem_cons] at hlegible
  obtain ⟨token, hpage, hsettled⟩ :=
    settled_of_visit hjar hname hinner hquiet hexempt hulid hlegible.1 hfirst
  exact ⟨token, hpage, settled_run hinner hsettled hforget hlegible.2 hrest⟩

/-- A program that answers every request with an empty page. -/
def emptyPage (_ : Request) : Response := ⟨200, [], none, none⟩

/-- Two tabs and a request of another site, out of order. -/
def tabActions : List Action :=
  [.send "GET".toList [] [], .send "POST".toList [("x-csrf-token", ofText ['0', '1'])] [],
    .serve 1 ['0', '2'], .send "POST".toList [] [], .serve 0 ['0', '3'], .receive 1, .serve 0 []]

theorem csrf_session_tabs :
    ∃ middle final token,
      Machine.run (step true Flash.flatJar CsrfConfig.default emptyPage) ⟨none, [], [], [], []⟩
        [.send "GET".toList [] [], .serve 0 ['0', '1'], .receive 0] = some middle ∧
      Machine.run (step true Flash.flatJar CsrfConfig.default emptyPage) middle tabActions =
        some final ∧
      middle.pages = [token] ∧ Settled Flash.flatJar CsrfConfig.default token final ∧
      Continues token middle final CsrfConfig.default emptyPage := by
  have hname : IsCookieName CsrfConfig.default.cookieName.toList :=
    ⟨by decide +kernel, by decide +kernel⟩
  have hinner : LeavesCookie CsrfConfig.default emptyPage := ⟨fun _ _ => rfl, fun _ => rfl⟩
  have hexempt : isExempt CsrfConfig.default "GET".toList = true := by decide +kernel
  have hforget : Action.forget ∉ tabActions := by simp [tabActions]
  have hlegible : ∀ action ∈ Action.send "GET".toList [] [] :: tabActions,
      Legible CsrfConfig.default action := by
    decide +kernel
  have hplayed : (Machine.run (step true Flash.flatJar CsrfConfig.default emptyPage)
      ⟨none, [], [], [], []⟩ ([.send "GET".toList [] [], .serve 0 ['0', '1'], .receive 0] ++
        tabActions)).isSome = true := by
    decide +kernel
  obtain ⟨final, hrun⟩ := Option.isSome_iff_exists.mp hplayed
  obtain ⟨middle, hfirst, hrest⟩ := Machine.run_append_eq_some.mp hrun
  obtain ⟨token, hpages, hsettled⟩ := csrf_session Flash.flatJar_signs hname hinner ⟨rfl, rfl⟩
    hexempt (by decide) hfirst hforget hlegible hrest
  exact ⟨middle, final, token, hfirst, hrest, hpages, hsettled⟩

end FirstVisit

end Modo.Csrf
