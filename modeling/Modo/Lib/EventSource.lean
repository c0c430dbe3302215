import Modo.Lib.Utf8

/-!
# Event streams

The interpretation of an event stream by an `EventSource`.  Lines end with `\r\n`, `\r` or `\n`;
a line is a field, and an empty line dispatches the event whose fields came before it.

`run_fields` says what the fields of one event dispatch, for whatever comes before and after
them in the stream.
-/

namespace EventSource

/-! ## Lines -/

/-- Put a character in front of the first line. -/
def consHead (c : Char) : List (List Char) → List (List Char)
  | [] => [[c]]
  | line :: rest => (c :: line) :: rest

/-- The lines of a text; the last one is not ended. -/
def splitLines : List Char → List (List Char)
  | [] => [[]]
  | '\r' :: '\n' :: rest => [] :: splitLines rest
  | c :: rest => if c = '\r' ∨ c = '\n' then [] :: splitLines rest else consHead c (splitLines rest)

/-- The text with `\n` for every line ending. -/
def normalize : List Char → List Char
  | [] => []
  | '\r' :: '\n' :: rest => '\n' :: normalize rest
  | c :: rest => (if c = '\r' then '\n' else c) :: normalize rest

/-- A text without line endings. -/
def OneLine (text : List Char) : Prop := '\r' ∉ text ∧ '\n' ∉ text

instance (text : List Char) : Decidable (OneLine text) := inferInstanceAs (Decidable (_ ∧ _))

theorem splitLines_cons {c : Char} (hreturn : c ≠ '\r') (hfeed : c ≠ '\n') (rest : List Char) :
    splitLines (c :: rest) = consHead c (splitLines rest) := by
  rw [splitLines, if_neg (by simp [hreturn, hfeed])]
  rintro tail rfl
  exact absurd rfl hreturn

theorem splitLines_newline (rest : List Char) :
    splitLines ('\n' :: rest) = [] :: splitLines rest := by
  rw [splitLines]
  · rfl
  · rintro tail heq
    cases heq

/-- The first line is the text up to the first line break. -/
theorem splitLines_append {line : List Char} (hline : OneLine line) (rest : List Char) :
    splitLines (line ++ '\n' :: rest) = line :: splitLines rest := by
  obtain ⟨hreturn, hfeed⟩ := hline
  induction line with
  | nil => exact splitLines_newline rest
  | cons c line ih =>
      rw [List.mem_cons, not_or] at hreturn hfeed
      rw [List.cons_append, splitLines_cons (Ne.symm hreturn.1) (Ne.symm hfeed.1),
        ih hreturn.2 hfeed.2]
      rfl

/-- A `\r` ends a line too, if no `\n` follows. -/
theorem splitLines_append_return {line rest : List Char} (hline : OneLine line)
    (hrest : rest.head? ≠ some '\n') :
    splitLines (line ++ '\r' :: rest) = line :: splitLines rest := by
  obtain ⟨hreturn, hfeed⟩ := hline
  induction line with
  | nil =>
      rw [List.nil_append, splitLines]
      · rfl
      · rintro tail - rfl
        exact hrest rfl
  | cons c line ih =>
      rw [List.mem_cons, not_or] at hreturn hfeed
      rw [List.cons_append, splitLines_cons (Ne.symm hreturn.1) (Ne.symm hfeed.1),
        ih hreturn.2 hfeed.2]
      rfl

/-! ## Single line breaks -/

/-- A `\r` or a `\n`. -/
def isBreak (c : Char) : Bool := decide (c = '\r' ∨ c = '\n')

/-- The text with `\n` for every single line break, which makes two of `\r\n`. -/
def feedBreaks (text : List Char) : List Char := text.map fun c => if c = '\r' then '\n' else c

theorem oneLine_of_mem_splitOnP {text line : List Char} (hmem : line ∈ text.splitOnP isBreak) :
    OneLine line := by
  induction text generalizing line with
  | nil =>
      rw [List.splitOnP_nil, List.mem_singleton] at hmem
      subst hmem
      exact ⟨by simp, by simp⟩
  | cons c text ih =>
      obtain ⟨first, others, hlines⟩ :=
        List.exists_cons_of_ne_nil (List.splitOnP_ne_nil isBreak text)
      rw [List.splitOnP_cons_eq_if_modifyHead, hlines] at hmem
      rw [hlines] at ih
      split at hmem
      · rcases List.mem_cons.mp hmem with rfl | hrest
        · exact ⟨by simp, by simp⟩
        · exact ih hrest
      · rename_i hbreak
        rw [isBreak, decide_eq_true_eq, not_or] at hbreak
        rcases List.mem_cons.mp hmem with rfl | hrest
        · obtain ⟨hreturn, hfeed⟩ := ih List.mem_cons_self
          exact ⟨by simp [hreturn, Ne.symm hbreak.1], by simp [hfeed, Ne.symm hbreak.2]⟩
        · exact ih (List.mem_cons_of_mem first hrest)

/-- The pieces of a text, each with a `\n` behind it. -/
theorem flatMap_splitOnP (text : List Char) :
    ((text.splitOnP isBreak).flatMap fun line => line ++ ['\n']) = feedBreaks text ++ ['\n'] := by
  induction text with
  | nil => simp [feedBreaks, List.splitOnP_nil]
  | cons c text ih =>
      obtain ⟨first, others, hlines⟩ :=
        List.exists_cons_of_ne_nil (List.splitOnP_ne_nil isBreak text)
      rw [List.splitOnP_cons_eq_if_modifyHead]
      rw [hlines] at ih ⊢
      split
      · rename_i hbreak
        rw [List.flatMap_cons, ih]
        rw [isBreak, decide_eq_true_eq] at hbreak
        rcases hbreak with rfl | rfl <;> rfl
      · rename_i hbreak
        rw [isBreak, decide_eq_true_eq, not_or] at hbreak
        rw [List.modifyHead_cons, List.flatMap_cons, List.cons_append, List.cons_append,
          ← List.flatMap_cons (f := fun line => line ++ ['\n']), ih]
        simp [feedBreaks, hbreak.1]

theorem length_normalize_le (text : List Char) : (normalize text).length ≤ text.length := by
  fun_induction normalize text with
  | case1 => exact le_refl 0
  | case2 rest ih => simp only [List.length_cons]; omega
  | case3 c rest hcrlf ih => simpa using ih

/-- Both readings of the line breaks agree on the texts without `\r\n`. -/
theorem feedBreaks_eq_normalize_iff (text : List Char) :
    feedBreaks text = normalize text ↔ ¬ ['\r', '\n'] <:+: text := by
  fun_induction normalize text with
  | case1 => simp [feedBreaks]
  | case2 rest ih =>
      have hlength := length_normalize_le rest
      have hne : feedBreaks ('\r' :: '\n' :: rest) ≠ '\n' :: normalize rest := by
        intro heq
        have hlengths := congrArg List.length heq
        simp only [feedBreaks, List.length_map, List.length_cons] at hlengths
        omega
      exact iff_of_false hne (not_not.mpr ⟨[], rest, rfl⟩)
  | case3 c rest hcrlf ih =>
      have hprefix : ¬ ['\r', '\n'] <+: c :: rest := by
        rintro ⟨tail, heq⟩
        obtain ⟨rfl, rfl⟩ := List.cons.inj heq
        exact hcrlf tail rfl rfl
      rw [List.infix_cons_iff, not_or, and_iff_right hprefix, ← ih]
      simp [feedBreaks]

/-! ## Fields and events -/

/-- A dispatched event. -/
structure Message where
  lastEventId : List Char
  type : List Char
  data : List Char
  deriving DecidableEq

/-- The buffers of the stream. -/
structure State where
  data : List Char
  type : List Char
  lastEventId : List Char
  reconnectionTime : Option ℕ

def State.initial : State := ⟨[], [], [], none⟩

/-- The name and the value of a line; one space behind the colon is not part of the value. -/
def field (line : List Char) : List Char × List Char :=
  match Utf8.splitOnce ':' line with
  | none => (line, [])
  | some (name, value) => (name, if value.head? = some ' ' then value.tail else value)

/-- Process a field. -/
def feedField (state : State) (name value : List Char) : State :=
  if name = "event".toList then { state with type := value }
  else if name = "data".toList then { state with data := state.data ++ value ++ ['\n'] }
  else if name = "id".toList then
    if '\x00' ∈ value then state else { state with lastEventId := value }
  else if name = "retry".toList then
    if value.all Char.isDigit then
      { state with
        reconnectionTime := some (value.foldl (fun n c => n * 10 + (c.toNat - '0'.toNat)) 0) }
    else state
  else state

/-- Dispatch the event; one without data is dropped. -/
def dispatch (state : State) : State × Option Message :=
  let next := { state with data := [], type := [] }
  if state.data = [] then (next, none)
  else
    (next, some
      { lastEventId := state.lastEventId
        type := if state.type = [] then "message".toList else state.type
        data := if state.data.getLast? = some '\n' then state.data.dropLast else state.data })

/-- Interpret a line. -/
def feedLine (state : State) (line : List Char) : State × Option Message :=
  if line = [] then dispatch state
  else if line.head? = some ':' then (state, none)
  else (feedField state (field line).1 (field line).2, none)

/-- Interpret the lines of a stream. -/
def run (state : State) : List (List Char) → List Message
  | [] => []
  | line :: rest =>
      let (next, message) := feedLine state line
      message.toList ++ run next rest

/-- The events of a stream.  A byte order mark in front is skipped, and what comes after the
last line ending is discarded. -/
def events (text : List Char) : List Message :=
  run State.initial
    (splitLines (if text.head? = some '\ufeff' then text.tail else text)).dropLast

/-! ## Written fields -/

/-- The line of a field. -/
def fieldLine (entry : List Char × List Char) : List Char := entry.1 ++ ": ".toList ++ entry.2

/-- The lines of a field.  The space may be left out in front of a value that begins with none. -/
inductive IsFieldLine (entry : List Char × List Char) : List Char → Prop
  | spaced : IsFieldLine entry (fieldLine entry)
  | tight (hvalue : entry.2.head? ≠ some ' ') : IsFieldLine entry (entry.1 ++ ':' :: entry.2)

/-- The texts of fields, each on a line of its own.  Every line but the last may end with `\r`. -/
inductive Writes : List (List Char × List Char) → List Char → Prop
  | nil : Writes [] []
  | feed {entry : List Char × List Char} {entries : List (List Char × List Char)}
      {line text : List Char} (hline : IsFieldLine entry line) (hrest : Writes entries text) :
      Writes (entry :: entries) (line ++ '\n' :: text)
  | carriage {entry : List Char × List Char} {entries : List (List Char × List Char)}
      {line text : List Char} (hline : IsFieldLine entry line) (hne : entries ≠ [])
      (hrest : Writes entries text) : Writes (entry :: entries) (line ++ '\r' :: text)

/-- A field that is read back. -/
structure Writable (entry : List Char × List Char) : Prop where
  name_ne : entry.1 ≠ []
  colon : ':' ∉ entry.1
  name : OneLine entry.1
  value : OneLine entry.2

theorem IsFieldLine.oneLine {entry : List Char × List Char} {line : List Char}
    (hline : IsFieldLine entry line) (h : Writable entry) : OneLine line := by
  have hname := h.name
  have hvalue := h.value
  cases hline with
  | spaced => exact ⟨by simp [fieldLine, hname.1, hvalue.1], by simp [fieldLine, hname.2, hvalue.2]⟩
  | tight => exact ⟨by simp [hname.1, hvalue.1], by simp [hname.2, hvalue.2]⟩

theorem IsFieldLine.head? {entry : List Char × List Char} {line : List Char}
    (hline : IsFieldLine entry line) (hne : entry.1 ≠ []) (rest : List Char) :
    (line ++ rest).head? = entry.1.head? := by
  obtain ⟨c, name, hname⟩ := List.exists_cons_of_ne_nil hne
  cases hline with
  | spaced => simp [fieldLine, hname]
  | tight => simp [hname]

theorem field_eq {entry : List Char × List Char} {line : List Char}
    (hline : IsFieldLine entry line) (hcolon : ':' ∉ entry.1) : field line = entry := by
  cases hline with
  | spaced =>
      have hsplit : Utf8.splitOnce ':' (fieldLine entry) = some (entry.1, ' ' :: entry.2) :=
        Utf8.splitOnce_eq_some.mpr ⟨by simp [fieldLine], hcolon⟩
      rw [field, hsplit]
      rfl
  | tight hvalue =>
      have hsplit : Utf8.splitOnce ':' (entry.1 ++ ':' :: entry.2) = some entry :=
        Utf8.splitOnce_eq_some.mpr ⟨rfl, hcolon⟩
      rw [field, hsplit]
      simp only [if_neg hvalue]

theorem feedLine_fieldLine {entry : List Char × List Char} {line : List Char}
    (hline : IsFieldLine entry line) (h : Writable entry) (state : State) :
    feedLine state line = (feedField state entry.1 entry.2, none) := by
  obtain ⟨c, name, hname⟩ := List.exists_cons_of_ne_nil h.name_ne
  have hcolon : c ≠ ':' := by
    rintro rfl
    exact h.colon (hname ▸ List.mem_cons_self)
  have hhead : line.head? = some c := by
    rw [← List.append_nil line, hline.head? h.name_ne, hname, List.head?_cons]
  have hne : line ≠ [] := by
    rintro rfl
    cases hhead
  have hcomment : line.head? ≠ some ':' := by
    rw [hhead]
    exact fun heq => hcolon (Option.some.inj heq)
  rw [feedLine, field_eq hline h.colon, if_neg hne, if_neg hcomment]

/-- The state behind the fields. -/
def feedFields (state : State) (entries : List (List Char × List Char)) : State :=
  entries.foldl (fun state entry => feedField state entry.1 entry.2) state

theorem feedFields_append (state : State) (entries others : List (List Char × List Char)) :
    feedFields state (entries ++ others) = feedFields (feedFields state entries) others :=
  List.foldl_append

/-- **The fields of an event, and the blank line behind them**, dispatch at most one event,
whatever the stream goes on with. -/
theorem run_fields {entries : List (List Char × List Char)} {lines : List (List Char)}
    (hlines : List.Forall₂ IsFieldLine entries lines) (hentries : ∀ entry ∈ entries, Writable entry)
    (state : State) (rest : List (List Char)) :
    run state (lines ++ [] :: rest) =
      (dispatch (feedFields state entries)).2.toList ++
        run (dispatch (feedFields state entries)).1 rest := by
  induction hlines generalizing state with
  | nil => rfl
  | cons hline _ ih =>
      rw [List.forall_mem_cons] at hentries
      rw [List.cons_append, run, feedLine_fieldLine hline hentries.1]
      exact ih hentries.2 _

theorem writes_fieldLines (entries : List (List Char × List Char)) :
    Writes entries (entries.flatMap fun entry => fieldLine entry ++ ['\n']) := by
  induction entries with
  | nil => exact Writes.nil
  | cons entry entries ih =>
      rw [List.flatMap_cons, List.append_assoc]
      exact Writes.feed IsFieldLine.spaced ih

theorem Writes.head? {entry : List Char × List Char} {entries : List (List Char × List Char)}
    {text : List Char} (hwrites : Writes (entry :: entries) text) (hne : entry.1 ≠ [])
    (rest : List Char) : (text ++ rest).head? = entry.1.head? := by
  cases hwrites with
  | feed hline _ => rw [List.append_assoc, hline.head? hne]
  | carriage hline _ _ => rw [List.append_assoc, hline.head? hne]

/-- The text of fields and a blank line is read as lines of these fields. -/
theorem splitLines_writes {entries : List (List Char × List Char)} {text : List Char}
    (hwrites : Writes entries text) (hentries : ∀ entry ∈ entries, Writable entry)
    (rest : List Char) :
    ∃ lines, List.Forall₂ IsFieldLine entries lines ∧
      splitLines (text ++ '\n' :: rest) = lines ++ [] :: splitLines rest := by
  induction hwrites with
  | nil => exact ⟨[], List.Forall₂.nil, splitLines_newline rest⟩
  | @feed entry entries line text hline _ ih =>
      rw [List.forall_mem_cons] at hentries
      obtain ⟨lines, hlines, hsplit⟩ := ih hentries.2
      refine ⟨line :: lines, List.Forall₂.cons hline hlines, ?_⟩
      rw [List.append_assoc, List.cons_append, splitLines_append (hline.oneLine hentries.1), hsplit,
        List.cons_append]
  | @carriage entry entries line text hline hne hrest ih =>
      rw [List.forall_mem_cons] at hentries
      obtain ⟨lines, hlines, hsplit⟩ := ih hentries.2
      -- the next line begins with a name, so the `\r` stands alone
      obtain ⟨next, others, rfl⟩ := List.exists_cons_of_ne_nil hne
      have hnext := hentries.2 next List.mem_cons_self
      have halone : (text ++ '\n' :: rest).head? ≠ some '\n' := by
        rw [hrest.head? hnext.name_ne]
        exact fun hhead => hnext.name.2 (List.mem_of_mem_head? hhead)
      refine ⟨line :: lines, List.Forall₂.cons hline hlines, ?_⟩
      rw [List.append_assoc, List.cons_append,
        splitLines_append_return (hline.oneLine hentries.1) halone, hsplit, List.cons_append]

theorem data_feedFields (state : State) (lines : List (List Char)) :
    feedFields state (lines.map fun line => ("data".toList, line)) =
      { state with data := state.data ++ lines.flatMap fun line => line ++ ['\n'] } := by
  induction lines generalizing state with
  | nil => simp [feedFields]
  | cons line lines ih =>
      have hdata : feedFields state (("data".toList, line) ::
          lines.map fun line => ("data".toList, line)) =
          feedFields { state with data := state.data ++ line ++ ['\n'] }
            (lines.map fun line => ("data".toList, line)) := rfl
      rw [List.map_cons, hdata, ih, List.flatMap_cons]
      simp only [List.append_assoc]

end EventSource
