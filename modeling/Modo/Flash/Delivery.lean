import Modo.Flash.Cookie

/-!
# Delivery of flash messages

A request takes the messages of its cookie as `incoming`, collects what the handler queues
in `outgoing`, and notes whether the handler read.  The response writes `outgoing` to the
cookie if there is any, else removes the cookie if it was read, else leaves it.

Over a whole history of one client, `waiting` is what was queued since the last request that
read.  The cookie holds the end of that (`held_suffix`), and all of it as long as no request
queues without reading while messages wait.
-/

namespace Modo.Flash

open Http

/-- `FlashState`. -/
structure FlashState where
  incoming : List FlashEntry
  outgoing : List FlashEntry
  read : Bool

namespace FlashState

/-- `FlashState::new`. -/
def new (incoming : List FlashEntry) : FlashState :=
  { incoming := incoming, outgoing := [], read := false }

/-- `FlashState::push`. -/
def push (state : FlashState) (level message : List Char) : FlashState :=
  { state with outgoing := state.outgoing ++ [{ level := level, message := message }] }

/-- `FlashState::mark_read`. -/
def markRead (state : FlashState) : FlashState := { state with read := true }

/-- `FlashState::incoming_as_template_value`: one map for each entry. -/
def incomingAsTemplateValue (state : FlashState) : List (List (List Char × List Char)) :=
  state.incoming.map fun entry => [(entry.level, entry.message)]

end FlashState

/-- What a handler does with the messages. -/
inductive Action where
  /-- `Flash::set`, and `success`, `error`, `warning` and `info` with their level. -/
  | set (level message : List Char)
  /-- `Flash::messages`. -/
  | messages
  /-- The template function `flash_messages`. -/
  | template
  deriving DecidableEq

/-- What a reading handler gets. -/
inductive Reply where
  | entries (entries : List FlashEntry)
  | maps (maps : List (List (List Char × List Char)))

/-- The messages of a reply. -/
def Reply.returned : Reply → List FlashEntry
  | .entries messages => messages
  | .maps values =>
      values.flatten.map fun (level, message) => { level := level, message := message }

def FlashState.apply (state : FlashState) : Action → FlashState × Option Reply
  | .set level message => (state.push level message, none)
  | .messages => (state.markRead, some (.entries state.incoming))
  | .template => (state.markRead, some (.maps state.incomingAsTemplateValue))

/-- The inner service, with the replies that its handler gets. -/
def handle : FlashState → List Action → FlashState × List Reply
  | state, [] => (state, [])
  | state, action :: rest =>
      let (next, reply) := state.apply action
      let (final, replies) := handle next rest
      (final, reply.toList ++ replies)

/-- What the response does to the cookie; a refused header value is `none`. -/
inductive CookieChange where
  | write (field : Option HeaderValue)
  | remove (field : Option HeaderValue)
  | keep

section Middleware

variable (opaqueBytes : Bool) (jar : SignedJar) (config : CookieConfig)
  (fromJson : List Char → Option (List FlashEntry))

/-- `FlashMiddleware::call`. -/
def call (headers : HeaderMap) (request : List Action) : List Reply × CookieChange :=
  let incoming := readFlashCookie jar fromJson headers
  let (state, replies) := handle (FlashState.new incoming) request
  if ¬state.outgoing.isEmpty then
    (replies, .write (writeFlashCookie opaqueBytes jar config state.outgoing))
  else if state.read then (replies, .remove (removeFlashCookie opaqueBytes jar config))
  else (replies, .keep)

/-- The cookies of the client after the response. -/
def afterResponse (headers : HeaderMap) : CookieChange → HeaderMap
  | .write (some field) => nextRequest (some field)
  | .remove (some _) => []
  | .write none => headers
  | .remove none => headers
  | .keep => headers

/-- The cookies of the client after its requests. -/
def headersAfter (headers : HeaderMap) (requests : List (List Action)) : HeaderMap :=
  requests.foldl (fun headers request =>
    afterResponse headers (call opaqueBytes jar config fromJson headers request).2) headers

end Middleware

/-! ## Histories -/

/-- The messages that a request queues. -/
def queued (request : List Action) : List FlashEntry :=
  request.filterMap fun action =>
    match action with
    | .set level message => some { level := level, message := message }
    | .messages => none
    | .template => none

/-- The request reads its messages. -/
def reads (request : List Action) : Bool :=
  request.any fun action =>
    match action with
    | .set _ _ => false
    | .messages => true
    | .template => true

/-- The messages that were queued since the last request that read, that request included. -/
def waiting (requests : List (List Action)) : List FlashEntry :=
  requests.foldl (fun waiting request =>
    (if reads request then [] else waiting) ++ queued request) []

/-- The messages in the cookie. -/
def held (requests : List (List Action)) : List FlashEntry :=
  requests.foldl (fun held request =>
    if queued request ≠ [] then queued request else if reads request then [] else held) []

/-! ## One request -/

theorem apply_spec (state : FlashState) (action : Action) :
    (state.apply action).1.incoming = state.incoming ∧
      (state.apply action).1.outgoing = state.outgoing ++ queued [action] ∧
      (state.apply action).1.read = (state.read || reads [action]) ∧
      (reads [action] = true ↔ (state.apply action).2 ≠ none) ∧
      ∀ reply ∈ (state.apply action).2, reply.returned = state.incoming := by
  cases action with
  | set level message =>
      refine ⟨rfl, rfl, (Bool.or_false _).symm, by simp [reads, FlashState.apply], ?_⟩
      rintro reply ⟨⟩
  | messages =>
      refine ⟨rfl, (List.append_nil _).symm, (Bool.or_true _).symm,
        by simp [reads, FlashState.apply], ?_⟩
      rintro reply ⟨⟩
      rfl
  | template =>
      refine ⟨rfl, (List.append_nil _).symm, (Bool.or_true _).symm,
        by simp [reads, FlashState.apply], ?_⟩
      rintro reply ⟨⟩
      simp [Reply.returned, FlashState.incomingAsTemplateValue, ← List.flatMap_def,
        List.map_flatMap]

theorem queued_cons (action : Action) (request : List Action) :
    queued (action :: request) = queued [action] ++ queued request := by
  rw [queued, ← List.singleton_append, List.filterMap_append]
  rfl

theorem reads_cons (action : Action) (request : List Action) :
    reads (action :: request) = (reads [action] || reads request) := by
  rw [reads, ← List.singleton_append, List.any_append]
  rfl

/-- A handler gets the incoming messages whenever it reads. -/
theorem handle_spec (state : FlashState) (request : List Action) :
    (handle state request).1.outgoing = state.outgoing ++ queued request ∧
      (handle state request).1.read = (state.read || reads request) ∧
      (reads request = true ↔ (handle state request).2 ≠ []) ∧
      ∀ reply ∈ (handle state request).2, reply.returned = state.incoming := by
  induction request generalizing state with
  | nil => exact ⟨(List.append_nil _).symm, (Bool.or_false _).symm, by simp [reads, handle],
      by simp [handle]⟩
  | cons action rest ih =>
      obtain ⟨hincoming, houtgoing, hread, hreply, hreturned⟩ := apply_spec state action
      obtain ⟨ihoutgoing, ihread, ihreply, ihreturned⟩ := ih (state.apply action).1
      rw [queued_cons, reads_cons]
      refine ⟨?_, ?_, ?_, ?_⟩
      · change (handle (state.apply action).1 rest).1.outgoing = _
        rw [ihoutgoing, houtgoing, List.append_assoc]
      · change (handle (state.apply action).1 rest).1.read = _
        rw [ihread, hread, Bool.or_assoc]
      · change _ ↔ (state.apply action).2.toList ++ (handle (state.apply action).1 rest).2 ≠ []
        rw [Bool.or_eq_true, hreply, ihreply]
        simp [Option.toList_eq_nil_iff, imp_iff_not_or]
      · intro reply hmem
        rcases List.mem_append.mp hmem with hmem | hmem
        · exact hreturned reply (Option.mem_toList.mp hmem)
        · rw [ihreturned reply hmem, hincoming]

/-! ## The messages in the cookie -/

theorem waiting_concat (requests : List (List Action)) (request : List Action) :
    waiting (requests ++ [request]) =
      (if reads request then [] else waiting requests) ++ queued request := by
  rw [waiting, List.foldl_append]
  rfl

theorem held_concat (requests : List (List Action)) (request : List Action) :
    held (requests ++ [request]) =
      if queued request ≠ [] then queued request
      else if reads request then [] else held requests := by
  rw [held, List.foldl_append]
  rfl

/-- The cookie holds the messages that were queued last. -/
theorem held_suffix (requests : List (List Action)) : held requests <:+ waiting requests := by
  induction requests using List.reverseRecOn with
  | nil => exact List.suffix_rfl
  | append_singleton requests request ih =>
      rw [held_concat, waiting_concat]
      split_ifs with hqueued hreads
      · exact List.suffix_append _ _
      · exact List.suffix_append _ _
      · exact List.nil_suffix
      · rw [not_ne_iff.mp hqueued, List.append_nil]
        exact ih

/-- A message that is queued over waiting ones leaves one of them out. -/
theorem held_ne_waiting_of_overwrite {requests : List (List Action)} {request : List Action}
    (hqueued : queued request ≠ []) (hreads : reads request = false)
    (hwaiting : waiting requests ≠ []) :
    held (requests ++ [request]) ≠ waiting (requests ++ [request]) := by
  rw [held_concat, waiting_concat, if_pos hqueued, hreads]
  intro heq
  exact hwaiting (List.self_eq_append_left.mp heq)

/-- A message that was left out stays so until a request reads. -/
theorem held_ne_waiting_concat {requests : List (List Action)} {request : List Action}
    (hreads : reads request = false) (hne : held requests ≠ waiting requests) :
    held (requests ++ [request]) ≠ waiting (requests ++ [request]) := by
  rw [held_concat, waiting_concat, hreads]
  simp only [Bool.false_eq_true, if_false]
  by_cases hqueued : queued request = []
  · rw [if_neg (not_not.mpr hqueued), hqueued, List.append_nil]
    exact hne
  · rw [if_pos hqueued]
    intro heq
    have hnil := List.self_eq_append_left.mp heq
    have hsuffix := held_suffix requests
    rw [hnil] at hsuffix hne
    exact hne (List.suffix_nil.mp hsuffix)

/-- Without such a message the cookie holds all that waits. -/
theorem held_eq_waiting {requests : List (List Action)}
    (hnone : ∀ before request after, requests = before ++ request :: after →
      queued request ≠ [] → reads request = false → waiting before = []) :
    held requests = waiting requests := by
  induction requests using List.reverseRecOn with
  | nil => rfl
  | append_singleton requests request ih =>
      have ih := ih fun before other after heq =>
        hnone before other (after ++ [request]) (by rw [heq]; simp)
      have hlast := hnone requests request [] rfl
      rw [held_concat, waiting_concat]
      cases hreads : reads request with
      | true =>
          simp only [if_true, List.nil_append]
          split_ifs with hqueued
          · rfl
          · exact (not_ne_iff.mp hqueued).symm
      | false =>
          simp only [Bool.false_eq_true, if_false]
          split_ifs with hqueued
          · rw [hlast hqueued hreads, List.nil_append]
          · rw [not_ne_iff.mp hqueued, List.append_nil, ih]

section Middleware

variable (opaqueBytes : Bool) (config : CookieConfig) {jar : SignedJar}
  {fromJson : List Char → Option (List FlashEntry)}

/-- A request, in the terms of what it queues and whether it reads. -/
theorem call_eq (headers : HeaderMap) (request : List Action) :
    call opaqueBytes jar config fromJson headers request =
      ((handle (FlashState.new (readFlashCookie jar fromJson headers)) request).2,
        if queued request ≠ [] then
          .write (writeFlashCookie opaqueBytes jar config (queued request))
        else if reads request then .remove (removeFlashCookie opaqueBytes jar config)
        else .keep) := by
  obtain ⟨houtgoing, hread, -⟩ :=
    handle_spec (FlashState.new (readFlashCookie jar fromJson headers)) request
  rw [FlashState.new, List.nil_append] at houtgoing
  rw [FlashState.new, Bool.false_or] at hread
  simp only [call, FlashState.new, houtgoing, hread, List.isEmpty_iff, ne_eq]
  split_ifs <;> rfl

/-- The cookie holds what it should: the next request reads `held`. -/
theorem readFlashCookie_headersAfter (hjar : jar.Signs) (requests : List (List Action))
    (hlossless : ∀ request ∈ requests, queued request ≠ [] →
      readFlashCookie jar fromJson (nextRequest
        (writeFlashCookie opaqueBytes jar config (queued request))) = queued request) :
    readFlashCookie jar fromJson (headersAfter opaqueBytes jar config fromJson [] requests) =
      held requests := by
  induction requests using List.reverseRecOn with
  | nil => rfl
  | append_singleton requests request ih =>
      have ih := ih fun other hother => hlossless other (List.mem_append_left _ hother)
      have hlast := hlossless request (List.mem_append_right _ (List.mem_singleton_self request))
      rw [headersAfter, List.foldl_append, List.foldl_cons, List.foldl_nil, ← headersAfter, call_eq,
        held_concat]
      split_ifs with hqueued hreads
      · have hwrite := hlast hqueued
        cases hfield : writeFlashCookie opaqueBytes jar config (queued request) with
        | none =>
            rw [hfield] at hwrite
            exact absurd hwrite.symm hqueued
        | some field =>
            rw [hfield] at hwrite
            exact hwrite
      · obtain ⟨field, hfield⟩ := Option.ne_none_iff_exists'.mp
          (removeFlashCookie_ne_none opaqueBytes config hjar)
        rw [hfield]
        rfl
      · exact ih

variable (jar fromJson) in
/-- Every request that reads gets what was queued since the last request that read, each
message once. -/
def DeliveredOnce (requests : List (List Action)) : Prop :=
  ∀ before request after, requests = before ++ request :: after →
    ∀ reply ∈ (call opaqueBytes jar config fromJson
      (headersAfter opaqueBytes jar config fromJson [] before) request).1,
      reply.returned.Perm (waiting before)

/-- In the terms of the cookie: it holds all that waits when a request reads. -/
theorem deliveredOnce_iff_held (hjar : jar.Signs) (requests : List (List Action))
    (hlossless : ∀ request ∈ requests, queued request ≠ [] →
      readFlashCookie jar fromJson (nextRequest
        (writeFlashCookie opaqueBytes jar config (queued request))) = queued request) :
    DeliveredOnce opaqueBytes config jar fromJson requests ↔
      ∀ before request after, requests = before ++ request :: after → reads request = true →
        held before = waiting before := by
  refine forall_congr' fun before => forall_congr' fun request => forall_congr' fun after =>
    forall_congr' fun heq => ?_
  have hbefore : ∀ other ∈ before, queued other ≠ [] →
      readFlashCookie jar fromJson (nextRequest
        (writeFlashCookie opaqueBytes jar config (queued other))) = queued other :=
    fun other hother => hlossless other (heq ▸ List.mem_append_left _ hother)
  rw [call_eq, readFlashCookie_headersAfter opaqueBytes config hjar before hbefore]
  obtain ⟨-, -, hreplies, hreturned⟩ := handle_spec (FlashState.new (held before)) request
  constructor
  · intro hperm hreads
    obtain ⟨reply, rest, hreply⟩ := List.exists_cons_of_ne_nil (hreplies.mp hreads)
    have hmem : reply ∈ (handle (FlashState.new (held before)) request).2 :=
      hreply ▸ List.mem_cons_self
    have hlength := (hperm reply hmem).length_eq
    rw [hreturned reply hmem] at hlength
    exact (held_suffix before).eq_of_length hlength
  · intro hheld reply hmem
    rw [hreturned reply hmem]
    exact List.Perm.of_eq (hheld (hreplies.mpr (List.ne_nil_of_mem hmem)))

/-- **Delivery exactly once**: the messages of a history are all delivered, each once,
exactly when no request queues without reading while messages wait that a later request
reads. -/
theorem deliveredOnce_iff (hjar : jar.Signs) (requests : List (List Action))
    (hlossless : ∀ request ∈ requests, queued request ≠ [] →
      readFlashCookie jar fromJson (nextRequest
        (writeFlashCookie opaqueBytes jar config (queued request))) = queued request) :
    DeliveredOnce opaqueBytes config jar fromJson requests ↔
      ∀ before request middle reader after,
        requests = before ++ request :: (middle ++ reader :: after) → reads reader = true →
          queued request ≠ [] → reads request = false → waiting before = [] := by
  rw [deliveredOnce_iff_held opaqueBytes config hjar requests hlossless]
  constructor
  · intro hheld before request middle reader after heq hreader hqueued hreads
    by_contra hwaiting
    have hne := held_ne_waiting_of_overwrite hqueued hreads hwaiting
    replace heq : requests = (before ++ [request]) ++ (middle ++ reader :: after) := by
      rw [heq]
      simp
    generalize before ++ [request] = played at hne heq
    -- the first request that reads finds a message missing
    induction middle generalizing played with
    | nil => exact hne (hheld played reader after heq hreader)
    | cons next middle ih =>
        cases hnext : reads next with
        | true => exact hne (hheld played next (middle ++ reader :: after) heq hnext)
        | false =>
            apply ih (played ++ [next]) (held_ne_waiting_concat hnext hne)
            rw [heq]
            simp
  · intro hnone before reader after heq hreader
    apply held_eq_waiting
    intro first request middle hsplit hqueued hreads
    refine hnone first request middle reader after ?_ hreader hqueued hreads
    rw [heq, hsplit]
    simp

end Middleware

def firstMessage : FlashEntry := { level := ['i', 'n', 'f', 'o'], message := ['o', 'n', 'e'] }

def secondMessage : FlashEntry := { level := ['i', 'n', 'f', 'o'], message := ['t', 'w', 'o'] }

/-- Queue a message. -/
def queueRequest (entry : FlashEntry) : List Action := [.set entry.level entry.message]

theorem deliveredOnce_redirect :
    DeliveredOnce true laxConfig flatJar (readAmong [[firstMessage]])
      [queueRequest firstMessage, [.messages]] := by
  refine (deliveredOnce_iff true laxConfig flatJar_signs _ (by decide +kernel)).mpr ?_
  intro before request middle reader after heq _ _ _
  have hlength := congrArg List.length heq
  simp only [List.length_cons, List.length_nil, List.length_append] at hlength
  rw [List.eq_nil_of_length_eq_zero (show before.length = 0 by omega)]
  rfl

/-- Two requests queue a message before one reads: only the second message is returned. -/
theorem not_deliveredOnce_two_queued :
    flatJar.Signs ∧
      (∀ request ∈ [queueRequest firstMessage, queueRequest secondMessage, [.messages]],
        queued request ≠ [] →
          readFlashCookie flatJar (readAmong [[firstMessage], [secondMessage]]) (nextRequest
            (writeFlashCookie true flatJar laxConfig (queued request))) = queued request) ∧
      ¬DeliveredOnce true laxConfig flatJar (readAmong [[firstMessage], [secondMessage]])
        [queueRequest firstMessage, queueRequest secondMessage, [.messages]] := by
  refine ⟨flatJar_signs, by decide +kernel, ?_⟩
  intro hdelivered
  have hreplies : (call true flatJar laxConfig (readAmong [[firstMessage], [secondMessage]])
      (headersAfter true flatJar laxConfig (readAmong [[firstMessage], [secondMessage]]) []
        [queueRequest firstMessage, queueRequest secondMessage]) [.messages]).1.map Reply.returned =
      [[secondMessage]] := by
    decide +kernel
  obtain ⟨reply, hmem, hreturned⟩ := List.mem_map.mp (hreplies ▸ List.mem_singleton_self _)
  have hperm := hdelivered [queueRequest firstMessage, queueRequest secondMessage] [.messages] []
    rfl reply hmem
  rw [hreturned] at hperm
  exact absurd hperm.length_eq (by decide)

end Modo.Flash
