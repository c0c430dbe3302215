import Modo.Lib.EventSource

/-!
# Events for event streams

`Event::new` refuses an id or a name with a line break, and `From<Event>` hands the event to
the event of `axum`, whose `id` panics on a NUL as well.  `axum` is a parameter: what version 0.8.9
does is `Axum.Documented`.  It writes no field for empty data, and one behind every `\r` and every
`\n`, so that `\r\n` makes an empty line.

`roundTrips_iff` says that an accepted event is converted, and read back by an `EventSource`,
exactly when there is no NUL in its id, and its data is not empty and has no `\r\n`.
-/

namespace Modo.Sse

open EventSource (OneLine Writable Message)

/-- `Event`. -/
structure Event where
  id : List Char
  event : List Char
  data : Option (List Char)
  /-- In milliseconds. -/
  retry : Option ℕ
  deriving DecidableEq

/-- `validate_field`; the error is a bad request with this text. -/
def validateField (value : List Char) (fieldName : String) : Except String Unit :=
  if '\n' ∈ value ∨ '\r' ∈ value then
    .error ("SSE " ++ fieldName ++ " must not contain newline characters")
  else .ok ()

/-- `Event::new`. -/
def Event.new (id event : List Char) : Except String Event := do
  validateField id "id"
  validateField event "event"
  return ⟨id, event, none, none⟩

/-- `Event::data`. -/
def Event.withData (event : Event) (data : List Char) : Event := { event with data := some data }

/-- `Event::html`. -/
def Event.html (event : Event) (html : List Char) : Event := event.withData html

/-- `Event::retry`. -/
def Event.withRetry (event : Event) (duration : ℕ) : Event := { event with retry := some duration }

/-- `axum::response::sse::Event`; a setter that panics gives `none`. -/
structure Axum where
  Event : Type
  default : Event
  id : Event → List Char → Option Event
  event : Event → List Char → Option Event
  data : Event → List Char → Option Event
  retry : Event → ℕ → Option Event
  /-- The fields that have been set, in their order. -/
  fields : Event → List (List Char × List Char)
  /-- The text that is sent. -/
  text : Event → List Char

/-- No field of this name has been set. -/
def Axum.Unset (axum : Axum) (event : axum.Event) (name : String) : Prop :=
  ∀ entry ∈ axum.fields event, entry.1 ≠ name.toList

/-- The fields of some data: none where it is empty, and one for every piece between line breaks. -/
def dataFields (data : List Char) : List (List Char × List Char) :=
  if data = [] then []
  else (data.splitOnP EventSource.isBreak).map fun line => ("data".toList, line)

/-- What is known of the setters, each of which may be called once, and of the text. -/
structure Axum.Documented (axum : Axum) : Prop where
  default_fields : axum.fields axum.default = []
  id_panics : ∀ event value, '\x00' ∈ value → axum.id event value = none
  id_fields : ∀ event value, axum.Unset event "id" → OneLine value → '\x00' ∉ value →
    ∃ next, axum.id event value = some next ∧
      axum.fields next = axum.fields event ++ [("id".toList, value)]
  event_fields : ∀ event value, axum.Unset event "event" → OneLine value →
    ∃ next, axum.event event value = some next ∧
      axum.fields next = axum.fields event ++ [("event".toList, value)]
  data_fields : ∀ event value, axum.Unset event "data" →
    ∃ next, axum.data event value = some next ∧
      axum.fields next = axum.fields event ++ dataFields value
  retry_fields : ∀ event duration, axum.Unset event "retry" →
    ∃ next, axum.retry event duration = some next ∧
      axum.fields next = axum.fields event ++ [("retry".toList, (Nat.repr duration).toList)]
  /-- The fields, and a blank line. -/
  text_writes : ∀ event, ∃ written, EventSource.Writes (axum.fields event) written ∧
    axum.text event = written ++ ['\n']

/-- `From<Event>`. -/
def toAxum (axum : Axum) (event : Event) : Option axum.Event := do
  let axumEvent ← axum.id axum.default event.id
  let axumEvent ← axum.event axumEvent event.event
  let axumEvent ← event.data.elim (some axumEvent) (axum.data axumEvent)
  event.retry.elim (some axumEvent) (axum.retry axumEvent)

/-- The event that a client should see. -/
def Event.message (event : Event) (data : List Char) : Message where
  lastEventId := event.id
  type := if event.event = [] then "message".toList else event.event
  data := EventSource.normalize data

/-- The event with this data is converted, and an `EventSource` reads it back. -/
def RoundTrips (axum : Axum) (event : Event) (data : List Char) : Prop :=
  ∃ sent, toAxum axum (event.withData data) = some sent ∧
    EventSource.events (axum.text sent) = [event.message data]

theorem validateField_eq_ok {value : List Char} (fieldName : String) :
    validateField value fieldName = .ok () ↔ OneLine value := by
  rw [validateField]
  split_ifs with hbreak
  · simp only [false_iff, OneLine]
    tauto
  · simp only [true_iff, OneLine]
    tauto

/-- An accepted event has no line break in its id and its name. -/
theorem Event.new_eq_ok {id name : List Char} {event : Event} :
    Event.new id name = .ok event ↔
      OneLine id ∧ OneLine name ∧ event = ⟨id, name, none, none⟩ := by
  rw [← validateField_eq_ok "id", ← validateField_eq_ok "event", Event.new]
  cases validateField id "id" with
  | error message => simp [bind, Except.bind]
  | ok =>
      cases validateField name "event" with
      | error message => simp [bind, Except.bind]
      | ok => simp [bind, Except.bind, pure, Except.pure, eq_comm]

/-! ## The conversion -/

section Conversion

variable {axum : Axum} (event : Event)

/-- The fields of an event. -/
def Event.fields (event : Event) : List (List Char × List Char) :=
  [("id".toList, event.id), ("event".toList, event.event)] ++
    (event.data.map dataFields).getD [] ++
    (event.retry.map fun duration => ("retry".toList, (Nat.repr duration).toList)).toList

theorem toAxum_of_nul (haxum : axum.Documented) (hnul : '\x00' ∈ event.id) :
    toAxum axum event = none := by
  rw [toAxum, haxum.id_panics _ _ hnul]
  rfl

theorem mem_dataFields {data : Option (List Char)} {entry : List Char × List Char}
    (hmem : entry ∈ (data.map dataFields).getD []) : entry.1 = "data".toList ∧ OneLine entry.2 := by
  cases data with
  | none => cases hmem
  | some data =>
      rw [Option.map_some, Option.getD_some, dataFields] at hmem
      split at hmem
      · cases hmem
      · obtain ⟨line, hline, rfl⟩ := List.mem_map.mp hmem
        exact ⟨rfl, EventSource.oneLine_of_mem_splitOnP hline⟩

theorem toAxum_fields (haxum : axum.Documented) (hid : OneLine event.id)
    (hname : OneLine event.event) (hnul : '\x00' ∉ event.id) :
    ∃ sent, toAxum axum event = some sent ∧ axum.fields sent = event.fields := by
  -- the setters are called one after the other, each for a name of its own
  obtain ⟨withId, hwithId, hfirst⟩ := haxum.id_fields axum.default event.id
    (by simp [Axum.Unset, haxum.default_fields]) hid hnul
  rw [haxum.default_fields, List.nil_append] at hfirst
  obtain ⟨withName, hwithName, hsecond⟩ := haxum.event_fields withId event.event
    (by simp [Axum.Unset, hfirst]) hname
  rw [hfirst, List.singleton_append] at hsecond
  obtain ⟨withData, hwithData, hthird⟩ : ∃ next,
      event.data.elim (some withName) (axum.data withName) = some next ∧
      axum.fields next =
        axum.fields withName ++ (event.data.map dataFields).getD [] := by
    cases event.data with
    | none => exact ⟨withName, rfl, (List.append_nil _).symm⟩
    | some data =>
        exact haxum.data_fields withName data (by simp [Axum.Unset, hsecond])
  rw [hsecond] at hthird
  obtain ⟨sent, hsent, hlast⟩ : ∃ next,
      event.retry.elim (some withData) (axum.retry withData) = some next ∧
      axum.fields next = axum.fields withData ++
        (event.retry.map fun duration => ("retry".toList, (Nat.repr duration).toList)).toList := by
    cases event.retry with
    | none => exact ⟨withData, rfl, (List.append_nil _).symm⟩
    | some retry =>
        refine haxum.retry_fields withData retry ?_
        intro entry hmem
        rw [hthird, List.mem_append] at hmem
        rcases hmem with hmem | hmem
        · simp only [List.mem_cons, List.not_mem_nil, or_false] at hmem
          rcases hmem with rfl | rfl <;> simp
        · rw [(mem_dataFields hmem).1]
          decide
  refine ⟨sent, ?_, ?_⟩
  · simp only [toAxum, hwithId, hwithName, bind, Option.bind_some, hwithData, hsent]
  · rw [hlast, hthird]
    rfl

/-- The names that are written are read back. -/
theorem writable_of_name {name value : List Char}
    (hname : name ∈ ["id".toList, "event".toList, "data".toList, "retry".toList])
    (hvalue : OneLine value) : Writable (name, value) := by
  have hall : ∀ name ∈ ["id".toList, "event".toList, "data".toList, "retry".toList],
      name ≠ [] ∧ ':' ∉ name ∧ '\r' ∉ name ∧ '\n' ∉ name := by
    decide
  obtain ⟨hne, hcolon, hreturn, hfeed⟩ := hall name hname
  exact ⟨hne, hcolon, ⟨hreturn, hfeed⟩, hvalue⟩

theorem oneLine_repr (n : ℕ) : OneLine (Nat.repr n).toList := by
  have hdigits : ∀ c ∈ (Nat.repr n).toList, c.isDigit = true := by
    intro c hc
    rw [Nat.repr_eq_ofList_toDigits, String.toList_ofList] at hc
    exact Nat.isDigit_of_mem_toDigits (by omega) (by omega) hc
  exact ⟨fun h => absurd (hdigits _ h) (by decide), fun h => absurd (hdigits _ h) (by decide)⟩

theorem writable_fields (hid : OneLine event.id) (hname : OneLine event.event) :
    ∀ entry ∈ event.fields, Writable entry := by
  intro entry hmem
  simp only [Event.fields, List.mem_append, List.mem_cons, List.not_mem_nil, or_false] at hmem
  rcases hmem with ((rfl | rfl) | hdata) | hretry
  · exact writable_of_name (by simp) hid
  · exact writable_of_name (by simp) hname
  · obtain ⟨hdataName, hline⟩ := mem_dataFields hdata
    have hmem : entry.1 ∈ ["id".toList, "event".toList, "data".toList, "retry".toList] := by
      simp [hdataName]
    exact writable_of_name hmem hline
  · obtain ⟨duration, -, rfl⟩ := Option.map_eq_some_iff.mp (Option.mem_toList.mp hretry)
    exact writable_of_name (by simp) (oneLine_repr duration)

/-- What the fields dispatch, from empty buffers. -/
theorem dispatch_fields {data : List Char} (hnul : '\x00' ∉ event.id)
    (hdata : event.data = some data) :
    (EventSource.dispatch (EventSource.feedFields EventSource.State.initial event.fields)).2 =
      if data = [] then none
      else some { event.message data with data := EventSource.feedBreaks data } := by
  have hhead : EventSource.feedFields EventSource.State.initial
      [("id".toList, event.id), ("event".toList, event.event)] =
        ⟨[], event.event, event.id, none⟩ := by
    have hkept : EventSource.feedField EventSource.State.initial "id".toList event.id =
        ⟨[], [], event.id, none⟩ := if_neg hnul
    rw [EventSource.feedFields, List.foldl_cons, hkept]
    rfl
  have hbuffer : EventSource.feedFields ⟨[], event.event, event.id, none⟩ (dataFields data) =
      ⟨if data = [] then [] else EventSource.feedBreaks data ++ ['\n'], event.event, event.id,
        none⟩ := by
    rw [dataFields]
    split
    · rfl
    · rw [EventSource.data_feedFields, EventSource.flatMap_splitOnP]
      rfl
  have hretry : ∀ state : EventSource.State, ∃ reconnectionTime,
      EventSource.feedFields state (event.retry.map fun duration =>
          ("retry".toList, (Nat.repr duration).toList)).toList =
        { state with reconnectionTime := reconnectionTime } := by
    intro state
    cases event.retry with
    | none => exact ⟨state.reconnectionTime, rfl⟩
    | some duration =>
        by_cases hdigits : (Nat.repr duration).toList.all Char.isDigit = true
        · exact ⟨_, if_pos hdigits⟩
        · exact ⟨state.reconnectionTime, if_neg hdigits⟩
  rw [Event.fields, EventSource.feedFields_append, EventSource.feedFields_append, hhead, hdata,
    Option.map_some, Option.getD_some, hbuffer]
  obtain ⟨reconnectionTime, hfed⟩ := hretry
    ⟨if data = [] then [] else EventSource.feedBreaks data ++ ['\n'], event.event, event.id, none⟩
  rw [hfed, EventSource.dispatch]
  dsimp only
  by_cases hempty : data = []
  · rw [if_pos hempty, if_pos hempty, if_pos rfl]
  · rw [if_neg hempty, if_neg hempty, if_neg (by simp), if_pos List.getLast?_concat,
      List.dropLast_concat]
    rfl

/-- The events in the text of a converted event. -/
theorem events_text (haxum : axum.Documented) {id name : List Char} (hid : OneLine id)
    (hname : OneLine name) (hnul : '\x00' ∉ id) (data : List Char) (retry : Option ℕ) :
    ∃ sent, toAxum axum ⟨id, name, some data, retry⟩ = some sent ∧
      EventSource.events (axum.text sent) =
        (if data = [] then none
        else some { Event.message ⟨id, name, none, retry⟩ data with
          data := EventSource.feedBreaks data }).toList := by
  obtain ⟨sent, hsent, hfields⟩ :=
    toAxum_fields ⟨id, name, some data, retry⟩ haxum hid hname hnul
  obtain ⟨written, hwrites, htext⟩ := haxum.text_writes sent
  rw [hfields] at hwrites
  have hwritable := writable_fields ⟨id, name, some data, retry⟩ hid hname
  obtain ⟨lines, hlines, hsplit⟩ := EventSource.splitLines_writes hwrites hwritable []
  have hmark : (axum.text sent).head? ≠ some '\ufeff' := by
    rw [htext, hwrites.head? (by simp)]
    exact (by decide : "id".toList.head? ≠ some '\ufeff')
  have hread : (EventSource.splitLines (axum.text sent)).dropLast = lines ++ [[]] := by
    rw [htext, hsplit, List.dropLast_append_of_ne_nil (by simp)]
    rfl
  refine ⟨sent, hsent, ?_⟩
  rw [EventSource.events, if_neg hmark, hread, EventSource.run_fields hlines hwritable,
    dispatch_fields _ hnul rfl]
  exact List.append_nil _

end Conversion

/-- **Events of a stream.**  An accepted event, with any data and any retry, is converted and
read back exactly when there is no NUL in its id, and its data is not empty and has no `\r\n`. -/
theorem roundTrips_iff (axum : Axum) (haxum : axum.Documented) {id name : List Char}
    {event : Event} (hnew : Event.new id name = .ok event) (data : List Char)
    (retry : Option ℕ) :
    RoundTrips axum { event with retry := retry } data ↔
      '\x00' ∉ id ∧ data ≠ [] ∧ ¬ ['\r', '\n'] <:+: data := by
  obtain ⟨hid, hname, rfl⟩ := Event.new_eq_ok.mp hnew
  by_cases hnul : '\x00' ∈ id
  · refine iff_of_false ?_ fun h => h.1 hnul
    rintro ⟨sent, hsent, -⟩
    rw [toAxum_of_nul _ haxum hnul] at hsent
    cases hsent
  · obtain ⟨sent, hsent, hevents⟩ := events_text haxum hid hname hnul data retry
    have hiff : RoundTrips axum ⟨id, name, none, retry⟩ data ↔
        EventSource.events (axum.text sent) = [Event.message ⟨id, name, none, retry⟩ data] := by
      constructor
      · rintro ⟨other, hother, hread⟩
        obtain rfl := Option.some.inj (hsent.symm.trans hother)
        exact hread
      · exact fun hread => ⟨sent, hsent, hread⟩
    rw [hiff, hevents, ← EventSource.feedBreaks_eq_normalize_iff]
    by_cases hdata : data = []
    · rw [if_pos hdata]
      exact iff_of_false (List.cons_ne_nil _ _).symm fun h => h.2.1 hdata
    · rw [if_neg hdata, Option.toList_some, List.singleton_inj]
      constructor
      · exact fun heq => ⟨hnul, hdata, congrArg Message.data heq⟩
      · rintro ⟨-, -, heq⟩
        rw [heq]
        rfl

/-! ## An instance -/

/-- The fields in a list. -/
def fieldList : Axum where
  Event := List (List Char × List Char)
  default := []
  id entries value :=
    if '\x00' ∈ value ∨ '\r' ∈ value ∨ '\n' ∈ value then none
    else some (entries ++ [("id".toList, value)])
  event entries value :=
    if '\r' ∈ value ∨ '\n' ∈ value then none
    else some (entries ++ [("event".toList, value)])
  data entries value := some (entries ++ dataFields value)
  retry entries duration := some (entries ++ [("retry".toList, (Nat.repr duration).toList)])
  fields entries := entries
  text entries := (entries.flatMap fun entry => EventSource.fieldLine entry ++ ['\n']) ++ ['\n']

theorem documented_fieldList : fieldList.Documented where
  default_fields := rfl
  id_panics _ _ hnul := if_pos (Or.inl hnul)
  id_fields _ _ _ hline hnul := ⟨_, if_neg (by simp [hnul, hline.1, hline.2]), rfl⟩
  event_fields _ _ _ hline := ⟨_, if_neg (by simp [hline.1, hline.2]), rfl⟩
  data_fields _ _ _ := ⟨_, rfl, rfl⟩
  retry_fields _ _ _ := ⟨_, rfl, rfl⟩
  text_writes entries := ⟨_, EventSource.writes_fieldLines entries, rfl⟩

/-- Two lines of data. -/
theorem roundTrips_twoLines :
    RoundTrips fieldList ⟨"7".toList, "update".toList, none, none⟩ "a\nb".toList :=
  (roundTrips_iff fieldList documented_fieldList
    (Event.new_eq_ok.mpr ⟨(by decide : OneLine "7".toList), (by decide : OneLine "update".toList),
      rfl⟩) "a\nb".toList none).mpr (by decide)

/-- An id with a NUL is accepted, and the conversion panics. -/
theorem nul_panics :
    Event.new "a\x00b".toList "update".toList =
        .ok ⟨"a\x00b".toList, "update".toList, none, none⟩ ∧
      toAxum fieldList ⟨"a\x00b".toList, "update".toList, some "data".toList, none⟩ = none ∧
      ¬ RoundTrips fieldList ⟨"a\x00b".toList, "update".toList, none, none⟩ "data".toList := by
  have hpanic := toAxum_of_nul
    ⟨"a\x00b".toList, "update".toList, some "data".toList, none⟩ documented_fieldList (by decide)
  refine ⟨Event.new_eq_ok.mpr ⟨by decide, by decide, rfl⟩, hpanic, ?_⟩
  intro ⟨sent, hsent, _⟩
  exact absurd (hpanic.symm.trans hsent) (by simp)

end Modo.Sse
